import Buzzer.Proofs.Device.Parity

/-!
Steps of a mixer that fail. A mixer has two places to keep, its level and the output, and fills them one
after the other once it has found a duty cycle in its table. A table that is too short stops it before it
has changed either of them, so the two agree after any number of steps, whichever of them have failed.
-/
namespace Buzzer

namespace Mixer

/-- What a step does one after the other. A failure keeps what has been done until then. -/
abbrev Effects := EStateM Unit Mixer

namespace Effects

/-- Finds the duty cycle of a level, writes it to the output and takes the level over. -/
def store (level : Nat) : Effects Unit := do
  let some duty := (← get).levels[level]? | throw ()
  modify ({ · with duty := some duty })
  modify ({ · with level })

def step : Step → Effects Unit
  | .flip channel => do store ((← get).level ^^^ 1 <<< channel)
  | .silence channel => do store (clearBit (← get).level channel)
  | .reset => do
    let mixer ← get
    store (mixer.volume <<< mixer.channels)

/-- The mixer after an effect, whether it has failed or not. -/
def after (effect : Effects Unit) (mixer : Mixer) : Mixer :=
  match effect.run mixer with
  | .ok _ next => next
  | .error _ next => next

end Effects

/-- The mixer after some steps, the earliest first, where a step that fails does not keep the later ones from
being taken. -/
def goOn (mixer : Mixer) (steps : List Step) : Mixer :=
  steps.foldl (fun mixer step => (Effects.step step).after mixer) mixer

/-- The level that a step asks for, as a byte. -/
def Step.asked (channels : Nat) (volume level : UInt8) : Step → UInt8
  | .flip channel => level ^^^ 1 <<< UInt8.ofNat channel
  | .silence channel => level &&& ~~~(1 <<< UInt8.ofNat channel)
  | .reset => (volume &&& 3) <<< UInt8.ofNat channels

/-! Steps as effects. -/

section

variable (mixer : Mixer)

theorem run_store (level : Nat) :
    (Effects.store level).run mixer =
      match mixer.store level with
      | some next => .ok () next
      | none => .error () mixer := by
  unfold Effects.store Mixer.store
  simp only [EStateM.run_bind, EStateM.run_get]
  cases mixer.levels[level]? with
  | none => rfl
  | some duty => rfl

/-- A step succeeds or fails as it does at once, and has changed nothing if it fails. -/
theorem run_step (step : Step) :
    (Effects.step step).run mixer =
      match mixer.step? step with
      | some next => .ok () next
      | none => .error () mixer := by
  cases step with
  | flip channel => exact run_store mixer _
  | silence channel => exact run_store mixer _
  | reset => exact run_store mixer _

theorem after_step (step : Step) : (Effects.step step).after mixer = (mixer.step? step).getD mixer := by
  rw [Effects.after, run_step]
  cases mixer.step? step <;> rfl

/-- The level that a step stores. -/
def wanted : Step → Nat
  | .flip channel => mixer.level ^^^ 1 <<< channel
  | .silence channel => clearBit mixer.level channel
  | .reset => mixer.volume <<< mixer.channels

theorem step?_eq_store (step : Step) : mixer.step? step = mixer.store (mixer.wanted step) := by
  cases step <;> rfl

end

/-! Levels as bytes. -/

section

variable {channel channels level : Nat}

theorem toNat_one_shiftLeft (inside : channel < 8) :
    (1 <<< UInt8.ofNat channel : UInt8).toNat = 1 <<< channel := by
  revert channel
  decide

theorem toNat_flip (inside : channel < 8) (byte : level < 0x100) :
    (UInt8.ofNat level ^^^ 1 <<< UInt8.ofNat channel).toNat = level ^^^ 1 <<< channel := by
  have value : (UInt8.ofNat level).toNat = level := UInt8.toNat_ofNat_of_lt' byte
  rw [UInt8.toNat_xor, value, toNat_one_shiftLeft inside]

theorem toNat_clearBit (inside : channel < 8) (byte : level < 0x100) :
    (UInt8.ofNat level &&& ~~~(1 <<< UInt8.ofNat channel)).toNat = clearBit level channel := by
  have value : (UInt8.ofNat level).toNat = level := UInt8.toNat_ofNat_of_lt' byte
  have others : ∀ channel < 8, ∀ bit < 8,
      (UInt8.size - 1 - 1 <<< channel).testBit bit = decide (channel ≠ bit) := by decide
  apply Nat.eq_of_testBit_eq
  intro bit
  rw [testBit_clearBit, UInt8.toNat_and, value, Nat.testBit_and, UInt8.toNat_not,
    toNat_one_shiftLeft inside]
  by_cases low : bit < 8
  · rw [others channel inside bit low]
  · have wide : 2 ^ 8 ≤ 2 ^ bit := Nat.pow_le_pow_right (by decide) (Nat.le_of_not_lt low)
    rw [Nat.testBit_lt_two_pow (Nat.lt_of_lt_of_le byte wide), Bool.false_and, Bool.false_and]

/-- The volume and the channels make up a byte if there are no more than six of them. -/
theorem volume_lt_byte (volume : Nat) (few : channels ≤ 6) : (volume % 4) <<< channels < 0x100 := by
  have within : (volume % 4) <<< channels < 4 <<< channels := by
    apply shiftRight_lt_iff.mp
    rw [Nat.shiftLeft_shiftRight]
    exact Nat.mod_lt _ (by decide)
  have most : ∀ channels ≤ 6, 4 <<< channels ≤ 0x100 := by decide
  exact Nat.lt_of_lt_of_le within (most channels few)

theorem toNat_volume (volume : UInt8) (few : channels ≤ 6) :
    ((volume &&& 3) <<< UInt8.ofNat channels).toNat = (volume.toNat % 4) <<< channels := by
  have selected : volume.toNat &&& UInt8.toNat 3 = volume.toNat % 4 := Nat.and_two_pow_sub_one_eq_mod _ 2
  have places : (UInt8.ofNat channels).toNat % 8 = channels := by
    rw [UInt8.toNat_ofNat']
    omega
  rw [UInt8.toNat_shiftLeft, UInt8.toNat_and, selected, places]
  exact Nat.mod_eq_of_lt (volume_lt_byte _ few)

end

/-! Runs in which steps fail. -/

/-- What every history of steps leaves of a mixer that starts with a level and with nothing written: its
level is a byte, and unless nothing has been written yet, the output shows the duty cycle of the level. -/
structure Agrees (first mixer : Mixer) : Prop where
  same : mixer = { first with level := mixer.level, duty := mixer.duty }
  byte : mixer.level < 0x100
  shown : mixer.duty = none ∧ mixer.level = first.level ∨
    ∃ duty, mixer.duty = some duty ∧ first.levels[mixer.level]? = some duty

section

variable {channels : Nat} {levels : Array UInt8} {volume : UInt8} {mixer : Mixer} {step : Step}

theorem Agrees.step?_of_missing (agrees : Agrees (start channels levels volume) mixer)
    (missing : levels[mixer.wanted step]? = none) : mixer.step? step = none := by
  have table : mixer.levels = levels := by rw [agrees.same]; rfl
  rw [step?_eq_store, store, table, missing, Option.map_none]

variable (few : channels ≤ 6)

include few

theorem agrees_start : Agrees (start channels levels volume) (start channels levels volume) :=
  ⟨rfl, volume_lt_byte _ few, .inl ⟨rfl, rfl⟩⟩

theorem Agrees.toNat_asked (agrees : Agrees (start channels levels volume) mixer)
    (inside : step.Within 8) :
    (step.asked channels volume (UInt8.ofNat mixer.level)).toNat = mixer.wanted step := by
  cases step with
  | flip channel => exact toNat_flip inside agrees.byte
  | silence channel => exact toNat_clearBit inside agrees.byte
  | reset =>
    rw [wanted, agrees.same]
    exact toNat_volume volume few

/-- A level for which there is a duty cycle is taken over together with it. -/
theorem Agrees.step?_of_found (agrees : Agrees (start channels levels volume) mixer)
    (inside : step.Within 8) {duty : UInt8} (found : levels[mixer.wanted step]? = some duty) :
    mixer.step? step = some { mixer with level := mixer.wanted step, duty := some duty } ∧
      Agrees (start channels levels volume) { mixer with level := mixer.wanted step, duty := some duty } := by
  have table : mixer.levels = levels := by rw [agrees.same]; rfl
  constructor
  · rw [step?_eq_store, store, table, found, Option.map_some]
  · refine ⟨?_, ?_, .inr ⟨duty, rfl, found⟩⟩
    · rw [agrees.same]
    · rw [← agrees.toNat_asked few inside]
      exact UInt8.toNat_lt _

theorem Agrees.after_step (agrees : Agrees (start channels levels volume) mixer)
    (inside : step.Within 8) :
    Agrees (start channels levels volume) ((Effects.step step).after mixer) := by
  rw [Mixer.after_step]
  cases found : levels[mixer.wanted step]? with
  | none =>
    rw [agrees.step?_of_missing found]
    exact agrees
  | some duty =>
    obtain ⟨done, agreesNext⟩ := agrees.step?_of_found few inside found
    rw [done]
    exact agreesNext

theorem Agrees.goOn (agrees : Agrees (start channels levels volume) mixer) {steps : List Step}
    (inside : ∀ step ∈ steps, step.Within 8) :
    Agrees (start channels levels volume) (mixer.goOn steps) := by
  induction steps generalizing mixer with
  | nil => exact agrees
  | cons step later ih =>
    rw [List.forall_mem_cons] at inside
    exact ih (agrees.after_step few inside.1) inside.2

/-- After any steps, of which any may have failed, either nothing has been written and the level is that of
the start, or the output shows the duty cycle of the level. The next step fails exactly if the table ends
before the level that it asks for. Then it leaves the mixer as it was; otherwise it takes the level over
and writes its duty cycle. -/
theorem failed_step_changes_nothing (levels : Array UInt8) (volume : UInt8) {steps : List Step}
    (inside : ∀ step ∈ steps, step.Within 8) {step : Step} (within : step.Within 8) :
    let mixer := (start channels levels volume).goOn steps
    let asked := (step.asked channels volume (UInt8.ofNat mixer.level)).toNat
    mixer.level < 0x100 ∧
      (mixer.duty = none ∧ mixer.level = (volume.toNat % 4) <<< channels ∨
        ∃ duty, mixer.duty = some duty ∧ levels[mixer.level]? = some duty) ∧
      ((∃ next, (Effects.step step).run mixer = .error () next) ↔ levels.size ≤ asked) ∧
      (∀ next, (Effects.step step).run mixer = .error () next → next = mixer) ∧
      ∀ next, (Effects.step step).run mixer = .ok () next →
        next.level = asked ∧ ∃ duty, next.duty = some duty ∧ levels[asked]? = some duty := by
  intro mixer asked
  have agrees : Agrees (start channels levels volume) mixer := (agrees_start few).goOn few inside
  have level : asked = mixer.wanted step := agrees.toNat_asked few within
  refine ⟨agrees.byte, agrees.shown, ?_⟩
  rw [run_step, level]
  cases found : levels[mixer.wanted step]? with
  | none =>
    rw [agrees.step?_of_missing found]
    refine ⟨⟨fun _ => Array.getElem?_eq_none_iff.mp found, fun _ => ⟨mixer, rfl⟩⟩, ?_, ?_⟩
    · intro next failed
      cases failed
      rfl
    · intro next done
      cases done
  | some duty =>
    rw [(agrees.step?_of_found few within found).1]
    have here : mixer.wanted step < levels.size := (Array.getElem?_eq_some_iff.mp found).1
    refine ⟨⟨?_, fun short => (Nat.not_lt_of_le short here).elim⟩, ?_, ?_⟩
    · rintro ⟨next, failed⟩
      cases failed
    · intro next failed
      cases failed
    · intro next done
      cases done
      exact ⟨rfl, duty, rfl, rfl⟩

end

/-- A table that lacks the last of eight entries. Channel 1 cannot be turned on beside channel 0, but the
bit above both of them can be cleared, and the bit above the volume cannot be set. -/
theorem fails_above_seven_entries :
    let mixer := (start 2 #[0, 1, 2, 3, 4, 5, 6] 1).goOn [.flip 0, .flip 1, .silence 2]
    mixer.level = 1 ∧ mixer.duty = some 1 ∧ (Effects.step (.flip 7)).run mixer = .error () mixer := by
  intro mixer
  obtain ⟨-, -, fails, unchanged, -⟩ :=
    @failed_step_changes_nothing 2 (by decide) #[0, 1, 2, 3, 4, 5, 6] 1
      [.flip 0, .flip 1, .silence 2] (by decide) (.flip 7) (by decide)
  refine ⟨rfl, rfl, ?_⟩
  obtain ⟨next, failed⟩ := fails.mpr (by decide)
  rw [failed, unchanged next failed]

end Mixer

end Buzzer
