import Buzzer.Proofs.Device.Mixing

/-!
What the level of a mixer says of its past. Whatever the interrupts of its channels, and whichever of them
are turned off in between, the bit of a channel is set exactly if an odd number of its interrupts have come
since it was last turned off. The order of interrupts in a row is forgotten.
-/
namespace Buzzer

/-- Something that happens to a mixer. -/
inductive Mixer.Step where
  | flip (channel : Nat)
  | silence (channel : Nat)
  | reset
  deriving DecidableEq

namespace Mixer

namespace Step

/-- Whether a step is about one of so many channels, or about all of them. -/
def Within (count : Nat) : Step → Prop
  | .flip channel => channel < count
  | .silence channel => channel < count
  | .reset => True

instance (count : Nat) (step : Step) : Decidable (step.Within count) :=
  match step with
  | .flip channel => inferInstanceAs (Decidable (channel < count))
  | .silence channel => inferInstanceAs (Decidable (channel < count))
  | .reset => .isTrue trivial

/-- Whether a step turns a channel off. -/
def silences (channel : Nat) : Step → Bool
  | .flip _ => false
  | .silence other => other = channel
  | .reset => true

/-- Whether a step is an interrupt. -/
def isFlip : Step → Bool
  | .flip _ => true
  | _ => false

/-- The number of interrupts of a channel since it was last turned off, in a history that has the latest
step first. -/
def flips (channel : Nat) (history : List Step) : Nat :=
  (history.takeWhile fun step => !step.silences channel).count (.flip channel)

section

variable {channel : Nat} {step : Step} {first second : List Step}

theorem flips_of_silences (silent : step.silences channel = true) (history : List Step) :
    flips channel (step :: history) = 0 := by
  rw [flips, List.takeWhile_cons_of_neg (by rw [silent]; decide), List.count_nil]

theorem flips_of_not_silences (sounding : step.silences channel = false) (history : List Step) :
    flips channel (step :: history) =
      flips channel history + if step = .flip channel then 1 else 0 := by
  rw [flips, List.takeWhile_cons_of_pos (by rw [sounding]; rfl), List.count_cons]
  simp only [flips, beq_iff_eq]

theorem flips_append_congr (later : List Step) (same : flips channel first = flips channel second) :
    flips channel (later ++ first) = flips channel (later ++ second) := by
  induction later with
  | nil => exact same
  | cons step later ih =>
    rw [List.cons_append, List.cons_append]
    cases silent : step.silences channel with
    | true => rw [flips_of_silences silent, flips_of_silences silent]
    | false => rw [flips_of_not_silences silent, flips_of_not_silences silent, ih]

/-- Interrupts in a row turn nothing off, so those of a channel are only counted. -/
theorem flips_append_of_isFlip {interrupts : List Step} (only : ∀ step ∈ interrupts, step.isFlip = true)
    (earlier : List Step) :
    flips channel (interrupts ++ earlier) = interrupts.count (.flip channel) + flips channel earlier := by
  have sounding : ∀ step ∈ interrupts, (!step.silences channel) = true := by
    intro step member
    have flips := only step member
    cases step with
    | flip other => rfl
    | silence other => cases flips
    | reset => cases flips
  rw [flips, List.takeWhile_append_of_pos sounding, List.count_append, flips]

theorem flips_reverse_perm (before after : List Step) (only : ∀ step ∈ first, step.isFlip = true)
    (reordered : first.Perm second) :
    flips channel (before ++ second ++ after).reverse = flips channel (before ++ first ++ after).reverse := by
  simp only [List.reverse_append]
  apply flips_append_congr
  have onlyFirst : ∀ step ∈ first.reverse, step.isFlip = true :=
    fun step member => only step (List.mem_reverse.mp member)
  have onlySecond : ∀ step ∈ second.reverse, step.isFlip = true :=
    fun step member => only step (reordered.mem_iff.mpr (List.mem_reverse.mp member))
  rw [flips_append_of_isFlip onlyFirst, flips_append_of_isFlip onlySecond, List.count_reverse,
    List.count_reverse, reordered.count_eq]

end

end Step

/-- What a step does to a mixer, unless the table has no entry for the new level. -/
def step? (mixer : Mixer) : Step → Option Mixer
  | .flip channel => mixer.flip channel
  | .silence channel => mixer.silence channel
  | .reset => mixer.reset

/-- The mixer after some steps, the earliest first, unless one of them fails. -/
def run? (mixer : Mixer) (steps : List Step) : Option Mixer := steps.foldlM step? mixer

/-- What holds of a mixer after every step, the latest first, that it has taken from its start. -/
structure Counts (first : Mixer) (history : List Step) (mixer : Mixer) : Prop where
  same : mixer = { first with level := mixer.level, duty := mixer.duty }
  selected : mixer.level >>> first.channels = first.volume
  parity : ∀ channel < first.channels,
    mixer.level.testBit channel = decide (Step.flips channel history % 2 = 1)
  written : mixer.duty = if history = [] then first.duty else first.levels[mixer.level]?

section

variable {first mixer other : Mixer} {history : List Step}

/-- A mixer is all that its counts say of it. -/
theorem Counts.unique {otherHistory : List Step} (counts : Counts first history mixer)
    (otherCounts : Counts first otherHistory other)
    (flips : ∀ channel, Step.flips channel otherHistory = Step.flips channel history)
    (begun : otherHistory = [] ↔ history = []) : other = mixer := by
  have level : other.level = mixer.level := by
    apply level_ext (otherCounts.selected.trans counts.selected.symm)
    intro channel inside
    rw [otherCounts.parity channel inside, counts.parity channel inside, flips]
  have duty : other.duty = mixer.duty := by
    rw [otherCounts.written, counts.written, level]
    simp only [begun]
  rw [otherCounts.same, counts.same, level, duty]

/-- A level that fits the counts is taken over and shown. -/
theorem Counts.store (counts : Counts first history mixer) (tabled : first.Tabled) {level : Nat}
    {step : Step} (selected : level >>> first.channels = first.volume)
    (parity : ∀ channel < first.channels,
      level.testBit channel = decide (Step.flips channel (step :: history) % 2 = 1)) :
    ∃ next, mixer.store level = some next ∧ Counts first (step :: history) next := by
  have here : mixer.Tabled := by
    rw [counts.same]
    exact ⟨tabled.volume, tabled.size⟩
  have table : mixer.levels = first.levels := by rw [counts.same]
  have volume : level >>> mixer.channels = mixer.volume := by
    rw [counts.same]
    exact selected
  obtain ⟨duty, found, stored⟩ := store_of_volume here volume
  refine ⟨_, stored, ?_, selected, parity, ?_⟩
  · rw [counts.same]
  · rw [if_neg (List.cons_ne_nil _ _), ← table, found]

/-- Every step of one of the channels succeeds and is counted. -/
theorem Counts.step (counts : Counts first history mixer) (tabled : first.Tabled) {step : Step}
    (inside : step.Within first.channels) :
    ∃ next, mixer.step? step = some next ∧ Counts first (step :: history) next := by
  have channels : mixer.channels = first.channels := by rw [counts.same]
  have volume : mixer.volume = first.volume := by rw [counts.same]
  cases step with
  | flip channel =>
    refine counts.store tabled (by rw [flip_shiftRight _ inside, counts.selected]) ?_
    intro other within
    rw [testBit_flip, counts.parity other within, Step.flips_of_not_silences rfl]
    by_cases mine : channel = other
    · subst mine
      rw [if_pos rfl, decide_eq_true rfl, Bool.xor_true, ← decide_not]
      exact decide_eq_decide.mpr (by omega)
    · have different : Step.flip channel ≠ .flip other := fun same => mine (Step.flip.inj same)
      rw [if_neg different, decide_eq_false mine, Bool.xor_false, Nat.add_zero]
  | silence channel =>
    refine counts.store tabled (by rw [clearBit_shiftRight _ inside, counts.selected]) ?_
    intro other within
    rw [testBit_clearBit, counts.parity other within]
    by_cases mine : channel = other
    · have silent : (Step.silence channel).silences other = true := decide_eq_true mine
      rw [Step.flips_of_silences silent, decide_eq_false (not_not_intro mine), Bool.and_false]
      rfl
    · have sounding : (Step.silence channel).silences other = false := decide_eq_false mine
      have different : Step.silence channel ≠ .flip other := fun impossible => by cases impossible
      rw [Step.flips_of_not_silences sounding, if_neg different, decide_eq_true mine, Bool.and_true,
        Nat.add_zero]
  | reset =>
    rw [step?, Mixer.reset, channels, volume]
    refine counts.store tabled (Nat.shiftLeft_shiftRight _ _) ?_
    intro other within
    rw [Step.flips_of_silences rfl, testBit_shiftLeft_of_lt _ within]
    rfl

/-- So does every run of such steps. -/
theorem Counts.run (counts : Counts first history mixer) (tabled : first.Tabled) {steps : List Step}
    (inside : ∀ step ∈ steps, step.Within first.channels) :
    ∃ next, mixer.run? steps = some next ∧ Counts first (steps.reverse ++ history) next := by
  induction steps generalizing mixer history with
  | nil => exact ⟨mixer, rfl, counts⟩
  | cons step later ih =>
    rw [List.forall_mem_cons] at inside
    obtain ⟨after, done, countsAfter⟩ := counts.step tabled inside.1
    obtain ⟨next, ran, countsNext⟩ := ih countsAfter inside.2
    refine ⟨next, ?_, ?_⟩
    · rw [run?, List.foldlM_cons, done]
      exact ran
    · rw [List.reverse_cons, List.append_assoc]
      exact countsNext

end

section

variable {channels : Nat} {levels : Array UInt8}

theorem tabled_start (size : levels.size = 4 <<< channels) (volume : UInt8) :
    (start channels levels volume).Tabled :=
  ⟨Nat.mod_lt _ (by decide), size⟩

theorem counts_start (volume : UInt8) :
    Counts (start channels levels volume) [] (start channels levels volume) := by
  refine ⟨rfl, Nat.shiftLeft_shiftRight _ _, ?_, rfl⟩
  intro channel inside
  exact testBit_shiftLeft_of_lt _ inside

/-- However its channels are flipped and turned off, a mixer always finds a duty cycle. Its level holds the
volume and, for every channel, whether an odd number of interrupts have come since the channel was last
turned off; the duty cycle of the level is shown after every step; and all of this is the same for
interrupts in a row in any other order. -/
theorem level_counts_interrupts (size : levels.size = 4 <<< channels) (volume : UInt8) {steps : List Step}
    (inside : ∀ step ∈ steps, step.Within channels) :
    ∃ mixer, (start channels levels volume).run? steps = some mixer ∧
      mixer.level < levels.size ∧
      mixer.level >>> channels = volume.toNat % 4 ∧
      (∀ channel < channels,
        mixer.level.testBit channel = true ↔ Step.flips channel steps.reverse % 2 = 1) ∧
      mixer.duty = (if steps = [] then none else levels[mixer.level]?) ∧
      ∀ before interrupts reordered after, steps = before ++ interrupts ++ after →
        (∀ step ∈ interrupts, step.isFlip = true) → interrupts.Perm reordered →
          (start channels levels volume).run? (before ++ reordered ++ after) = some mixer := by
  have tabled := tabled_start size volume
  obtain ⟨mixer, ran, counts⟩ := (counts_start volume).run tabled inside
  rw [List.append_nil] at counts
  have selected : mixer.level >>> channels = volume.toNat % 4 := counts.selected
  refine ⟨mixer, ran, ?_, selected, ?_, ?_, ?_⟩
  · rw [size]
    apply shiftRight_lt_iff.mp
    rw [selected]
    exact Nat.mod_lt _ (by decide)
  · intro channel within
    rw [counts.parity channel within, decide_eq_true_eq]
  · rw [counts.written]
    simp only [List.reverse_eq_nil_iff]
    rfl
  · rintro before interrupts reordered after rfl only perm
    have whole : (before ++ interrupts ++ after).Perm (before ++ reordered ++ after) :=
      (perm.append_left before).append_right after
    obtain ⟨other, ranOther, countsOther⟩ := (counts_start volume).run tabled
      fun step member => inside step (whole.mem_iff.mpr member)
    rw [List.append_nil] at countsOther
    have flips (channel : Nat) : Step.flips channel (before ++ reordered ++ after).reverse =
        Step.flips channel (before ++ interrupts ++ after).reverse :=
      Step.flips_reverse_perm before after only perm
    have begun : (before ++ reordered ++ after).reverse = [] ↔
        (before ++ interrupts ++ after).reverse = [] := by
      rw [List.reverse_eq_nil_iff, List.reverse_eq_nil_iff, ← List.length_eq_zero_iff,
        ← List.length_eq_zero_iff, whole.length_eq]
    rw [ranOther, counts.unique countsOther flips begun]

/-- Channel 0 is flipped twice. Channel 1 is flipped once and turned off, then flipped three times. -/
theorem level_counts_three_interrupts :
    ∃ mixer, (start 2 #[0, 1, 2, 3, 4, 5, 6, 7, 8, 9, 10, 11, 12, 13, 14, 15] 7).run?
        [.flip 0, .flip 1, .silence 1, .flip 1, .flip 1, .flip 0, .flip 1] = some mixer ∧
      mixer.level >>> 2 = 3 ∧ mixer.level.testBit 0 = false ∧ mixer.level.testBit 1 = true ∧
      (start 2 #[0, 1, 2, 3, 4, 5, 6, 7, 8, 9, 10, 11, 12, 13, 14, 15] 7).run?
        [.flip 0, .flip 1, .silence 1, .flip 0, .flip 1, .flip 1, .flip 1] = some mixer := by
  obtain ⟨mixer, ran, -, selected, parity, -, reorders⟩ :=
    @level_counts_interrupts 2 #[0, 1, 2, 3, 4, 5, 6, 7, 8, 9, 10, 11, 12, 13, 14, 15] rfl 7
      [.flip 0, .flip 1, .silence 1, .flip 1, .flip 1, .flip 0, .flip 1] (by decide)
  refine ⟨mixer, ran, selected, ?_, (parity 1 (by decide)).mpr (by decide), ?_⟩
  · rw [← Bool.not_eq_true, parity 0 (by decide)]
    decide
  · exact reorders [.flip 0, .flip 1, .silence 1] [.flip 1, .flip 1, .flip 0, .flip 1]
      [.flip 0, .flip 1, .flip 1, .flip 1] [] rfl (by decide) (by decide)

end

end Mixer

end Buzzer
