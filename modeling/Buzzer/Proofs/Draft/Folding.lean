import Mathlib.Logic.Function.Basic
import Buzzer.Proofs.Draft.Canonical
import Buzzer.Proofs.Draft.Refusals

/-!
The pause that a track is written with. A rest of that length after a tone is folded into the byte of the
tone, so the most common length of such rests folds the most. A track without a wish takes the shortest of
the most common lengths, and a count of the rests has the same best entry in whatever order its entries are
looked through.
-/
namespace Buzzer

/-! The most common of some lengths. -/

/-- Whether a length is the most common one up to a limit, and the shortest of several. -/
structure Commonest (pauses : List Nat) (limit best : Nat) : Prop where
  positive : 0 < best
  within : best ≤ limit
  most : ∀ ticks, 0 < ticks → ticks ≤ limit → pauses.count ticks ≤ pauses.count best
  shortest : ∀ ticks, 0 < ticks → ticks ≤ limit → pauses.count ticks = pauses.count best → best ≤ ticks

section Commonest

variable {pauses : List Nat} {limit best : Nat}

theorem Commonest.unique {other : Nat} (commonest : Commonest pauses limit best)
    (same : Commonest pauses limit other) : best = other := by
  have most := commonest.most other same.positive same.within
  have mostOther := same.most best commonest.positive commonest.within
  have equal : pauses.count best = pauses.count other := Nat.le_antisymm mostOther most
  apply Nat.le_antisymm
  · exact commonest.shortest other same.positive same.within equal.symm
  · exact same.shortest best commonest.positive commonest.within equal

theorem commonest_of_none (none : ∀ ticks, pauses.count ticks = 0) (some : 0 < limit) :
    Commonest pauses limit 1 where
  positive := Nat.one_pos
  within := some
  most ticks _ _ := (none ticks).trans_le (Nat.zero_le _)
  shortest _ positive _ _ := positive

theorem commonest_one (pauses : List Nat) : Commonest pauses 1 1 where
  positive := Nat.one_pos
  within := Nat.le_refl 1
  most ticks positive within := by rw [Nat.le_antisymm within positive]
  shortest _ positive _ _ := positive

/-- One length more takes the place of the best so far only if it is more common. -/
theorem Commonest.extend (commonest : Commonest pauses limit best) :
    Commonest pauses (limit + 1)
      (if pauses.count best < pauses.count (limit + 1) then limit + 1 else best) := by
  have within := commonest.within
  split
  next more =>
    refine ⟨Nat.succ_pos limit, Nat.le_refl _, ?_, ?_⟩
    · intro ticks positive most
      rcases Nat.le_succ_iff.mp most with earlier | rfl
      · exact (commonest.most ticks positive earlier).trans more.le
      · exact Nat.le_refl _
    · intro ticks positive most same
      rcases Nat.le_succ_iff.mp most with earlier | rfl
      · have fewer := commonest.most ticks positive earlier
        omega
      · exact Nat.le_refl _
  next fewer =>
    refine ⟨commonest.positive, Nat.le_succ_of_le within, ?_, ?_⟩
    · intro ticks positive most
      rcases Nat.le_succ_iff.mp most with earlier | rfl
      · exact commonest.most ticks positive earlier
      · exact Nat.le_of_not_lt fewer
    · intro ticks positive most same
      rcases Nat.le_succ_iff.mp most with earlier | rfl
      · exact commonest.shortest ticks positive earlier same
      · exact Nat.le_succ_of_le within

/-- The length that a track takes on its own is the most common one of those that can be folded. -/
theorem commonest_commonPause (pauses : List Nat) :
    Commonest pauses maxFoldedPause (TrackDraft.commonPause pauses) := by
  have upTo : ∀ more, Commonest pauses (more + 1) ((List.range' 1 (more + 1)).foldl
      (fun best ticks => if pauses.count best < pauses.count ticks then ticks else best) 1) := by
    intro more
    induction more with
    | zero => simpa [List.range'] using commonest_one pauses
    | succ more ih =>
      rw [List.range'_1_concat, List.foldl_append, Nat.add_comm 1 (more + 1)]
      exact ih.extend
  exact upTo 255

end Commonest

/-! Counting lengths with a map. -/

namespace Tally

/-- Counts some lengths one by one, in a map that says how often each of them has come. -/
def ofPauses (pauses : List Nat) : Nat → Nat :=
  pauses.foldl (fun counts ticks => Function.update counts ticks (counts ticks + 1)) fun _ => 0

/-- Whether some entries, each a length and its count, are those of a map in some order. -/
def Lists (entries : List (Nat × Nat)) (counts : Nat → Nat) : Prop :=
  ∀ entry, entry ∈ entries ↔ 0 < counts entry.1 ∧ entry.2 = counts entry.1

/-- The later of two entries, unless the earlier one counts more, or as much for a shorter length. -/
def preferred (best entry : Nat × Nat) : Nat × Nat :=
  if entry.2 < best.2 ∨ entry.2 = best.2 ∧ best.1 < entry.1 then best else entry

/-- Whether an entry is not preferred to another. -/
def Behind (entry best : Nat × Nat) : Prop :=
  entry.2 < best.2 ∨ entry.2 = best.2 ∧ best.1 ≤ entry.1

/-- The length of the entry that is preferred to all others, and 1 if there are none. -/
def mostCounted : List (Nat × Nat) → Nat
  | [] => 1
  | first :: later => (later.foldl preferred first).1

theorem ofPauses_eq_count (pauses : List Nat) : ofPauses pauses = fun ticks => pauses.count ticks := by
  unfold ofPauses
  induction pauses using List.reverseRecOn with
  | nil => rfl
  | append_singleton earlier last ih =>
    rw [List.foldl_append, ih]
    funext ticks
    rw [List.foldl_cons, List.foldl_nil, List.count_append, List.count_singleton]
    by_cases here : ticks = last
    · subst here
      simp
    · rw [Function.update_of_ne here]
      simp [Ne.symm here]

theorem Behind.trans {entry middle best : Nat × Nat} (behind : Behind entry middle)
    (ahead : Behind middle best) : Behind entry best := by
  unfold Behind at behind ahead ⊢
  omega

theorem preferred_cases (best entry : Nat × Nat) :
    preferred best entry = best ∧ Behind entry best ∨
      preferred best entry = entry ∧ Behind best entry := by
  unfold preferred Behind
  split
  · left
    refine ⟨rfl, ?_⟩
    omega
  · right
    refine ⟨rfl, ?_⟩
    omega

/-- The entry that is preferred to all others is one of them, and all others are behind it. -/
theorem foldl_preferred (later : List (Nat × Nat)) (first : Nat × Nat) :
    later.foldl preferred first ∈ first :: later ∧
      ∀ entry ∈ first :: later, Behind entry (later.foldl preferred first) := by
  induction later generalizing first with
  | nil =>
    refine ⟨List.mem_cons_self, ?_⟩
    intro entry member
    rw [List.mem_singleton.mp member]
    exact .inr ⟨rfl, Nat.le_refl _⟩
  | cons second later ih =>
    obtain ⟨among, ahead⟩ := ih (preferred first second)
    rw [List.forall_mem_cons] at ahead
    rw [List.foldl_cons, List.forall_mem_cons, List.forall_mem_cons]
    rcases preferred_cases first second with ⟨same, behind⟩ | ⟨same, behind⟩
    · rw [same] at among ahead ⊢
      refine ⟨?_, ahead.1, behind.trans ahead.1, ahead.2⟩
      rcases List.mem_cons.mp among with here | there
      · exact List.mem_cons.mpr (.inl here)
      · exact List.mem_cons_of_mem _ (List.mem_cons_of_mem _ there)
    · rw [same] at among ahead ⊢
      exact ⟨List.mem_cons_of_mem _ among, behind.trans ahead.1, ahead.1, ahead.2⟩

/-- Counting finds the most common length, in whatever order the counts are looked through. -/
theorem commonest_mostCounted {pauses : List Nat} {limit : Nat} (some : 0 < limit)
    (within : ∀ ticks ∈ pauses, 0 < ticks ∧ ticks ≤ limit) {entries : List (Nat × Nat)}
    (lists : Lists entries (ofPauses pauses)) : Commonest pauses limit (mostCounted entries) := by
  have counts : ∀ entry, entry ∈ entries ↔
      0 < pauses.count entry.1 ∧ entry.2 = pauses.count entry.1 := by
    rwa [Lists, ofPauses_eq_count] at lists
  cases entries with
  | nil =>
    apply commonest_of_none _ some
    intro ticks
    apply Nat.eq_zero_of_not_pos
    intro here
    exact List.not_mem_nil ((counts (ticks, pauses.count ticks)).mpr ⟨here, rfl⟩)
  | cons first later =>
    obtain ⟨among, ahead⟩ := foldl_preferred later first
    obtain ⟨here, count⟩ := (counts _).mp among
    obtain ⟨positive, most⟩ := within _ (List.count_pos_iff.mp here)
    have behind : ∀ ticks, 0 < pauses.count ticks →
        Behind (ticks, pauses.count ticks) (later.foldl preferred first) :=
      fun ticks there => ahead _ ((counts (ticks, pauses.count ticks)).mpr ⟨there, rfl⟩)
    have best : mostCounted (first :: later) = (later.foldl preferred first).1 := rfl
    rw [best]
    simp only [Behind, count] at behind
    refine ⟨positive, most, ?_, ?_⟩
    · intro ticks _ _
      have fewer := behind ticks
      omega
    · intro ticks _ _ same
      have longer := behind ticks (same ▸ here)
      omega

end Tally

/-! The tones that a block folds its pause into. -/

/-- Whether a code is a tone with the block's pause folded into it. -/
def NoteCode.folds : NoteCode → Bool
  | timed (.tone _) true => true
  | _ => false

/-- Whether a byte of a note array is a tone with the block's pause folded into it. -/
def isFolded (byte : UInt8) : Bool := 0x55 ≤ byte.toNat && byte.toNat ≤ 0xa8

/-- The note array of a block. -/
def noteArray (block : List UInt8) : List UInt8 :=
  match Header.read? block with
  | none => []
  | some header => (block.take header.durationOffset).drop headerLength

/-- The number of tones of a block that its pause is folded into. -/
def foldedTones (block : List UInt8) : Nat := (noteArray block).countP isFolded

/-- The length of a block's pause in ticks. -/
def pauseOf? (block : List UInt8) : Option Nat := (Header.read? block).map (·.pause + 1)

theorem isFolded_eq (byte : UInt8) : isFolded byte = (NoteCode.ofByte byte).folds := by
  rw [NoteCode.ofByte_eq, isFolded]
  split
  next stops => simp [stops, NoteCode.folds]
  next =>
    split
    next inline =>
      have past : ¬byte.toNat ≤ 0xa8 := by omega
      simp [past, NoteCode.folds]
    next notInline =>
      unfold Format.noteOf
      split
      next silent =>
        have apart : ¬(0x55 ≤ byte.toNat ∧ byte.toNat ≤ 0xa8) := by omega
        simpa [NoteCode.folds] using apart
      next sounds =>
        by_cases plain : byte.toNat < 0x55
        · have before : ¬0x55 ≤ byte.toNat := by omega
          simp [plain, before, NoteCode.folds]
        · have pauses : 0x55 ≤ byte.toNat := by omega
          have within : byte.toNat ≤ 0xa8 := by omega
          simp [plain, pauses, within, NoteCode.folds]

namespace TrackDraft

section Folding

variable {draft : TrackDraft} {block : List UInt8}

theorem foldablePauses_rest (ticks : Nat) (later : List Event) :
    foldablePauses (⟨.rest, ticks⟩ :: later) = foldablePauses later := by
  cases later with
  | nil => rfl
  | cons after later => simp [foldablePauses, Note.isRest]

theorem folds_writtenRest (ticks : Nat) : ∀ note ∈ writtenRest ticks, note.code.folds = false := by
  induction ticks using writtenRest.induct with
  | case1 ticks long part ih =>
    rw [writtenRest, dif_pos long, List.forall_mem_cons]
    exact ⟨rfl, ih⟩
  | case2 ticks short lasting =>
    rw [writtenRest, dif_neg short, if_pos lasting, List.forall_mem_singleton]
    rfl
  | case3 ticks short none =>
    rw [writtenRest, dif_neg short, if_neg none]
    intro note member
    cases member

/-- Writing a track folds the rests of the chosen length that follow a tone, and no others. -/
theorem countP_written {pause : Nat} (foldable : pause ≤ maxFoldedPause) (events : List Event) :
    (written pause events).countP (·.code.folds) = (foldablePauses events).count pause := by
  induction events using written.induct pause with
  | case1 => rfl
  | case2 ticks later ih =>
    have none : (writtenRest ticks).countP (·.code.folds) = 0 := by
      rw [List.countP_eq_zero]
      intro note member
      rw [folds_writtenRest ticks note member]
      exact Bool.false_ne_true
    rw [written, List.countP_append, none, Nat.zero_add, ih, foldablePauses_rest]
  | case3 note ticks later sounds ih =>
    cases note with
    | rest => exact (sounds rfl).elim
    | tone pitch =>
      have folds : foldablePauses (⟨.tone pitch, ticks⟩ :: ⟨.rest, pause⟩ :: later) =
          pause :: foldablePauses later := by
        rw [foldablePauses, foldablePauses_rest]
        simp [Note.isRest, foldable]
      rw [written, if_pos rfl, List.countP_cons_of_pos rfl, ih, folds, List.count_cons_self]
      exact sounds
  | case4 note ticks resting later sounds different ih =>
    cases note with
    | rest => exact (sounds rfl).elim
    | tone pitch =>
      have none : (foldablePauses (⟨.tone pitch, ticks⟩ :: ⟨.rest, resting⟩ :: later)).count pause =
          (foldablePauses (⟨.rest, resting⟩ :: later)).count pause := by
        rw [foldablePauses]
        split
        · exact List.count_cons_of_ne different
        · rfl
      rw [written, if_neg different, List.countP_cons_of_neg Bool.false_ne_true, ih, none]
      exact sounds
  | case5 note ticks later sounds alone ih =>
    cases note with
    | rest => exact (sounds rfl).elim
    | tone pitch =>
      have none : foldablePauses (⟨.tone pitch, ticks⟩ :: later) = foldablePauses later := by
        rcases later with _ | ⟨⟨other, length⟩, after⟩
        · rfl
        · cases other with
          | rest => exact (alone length after rfl).elim
          | tone other => simp [foldablePauses, Note.isRest]
      rw [written, List.countP_cons_of_neg Bool.false_ne_true, ih, none]
      · exact sounds
      · exact alone

theorem countP_noteBytes {written : List Written} (sound : ∀ note ∈ written, note.Sound) :
    (noteBytes written).countP isFolded = written.countP (·.code.folds) := by
  have stops : isFolded NoteCode.stop.toByte = false := by decide
  have code : ∀ note ∈ written, isFolded note.code.toByte = note.code.folds := by
    intro note member
    have writable : note.code.Writable := by
      cases sound note member with
      | timed writable _ _ => exact writable
      | pause writable => exact writable
    rw [isFolded_eq, NoteCode.ofByte_toByte writable]
  rw [noteBytes, List.countP_append, List.countP_map, List.countP_singleton, stops]
  exact List.countP_congr fun note member => by rw [Function.comp_apply, code note member]

/-- A block has as many folded tones as there are rests of its pause's length that can be folded. -/
theorem foldedTones_of_encode (ready : draft.Ready) (encoded : draft.encode = .ok block) :
    pauseOf? block = some draft.foldedPause ∧
      foldedTones block = (foldablePauses draft.events).count draft.foldedPause := by
  have foldable := foldedPause_foldable ready
  obtain ⟨-, writable, -, -⟩ := encode_eq_ok encoded
  obtain ⟨header, notes, -⟩ := frames_of_encode ready encoded
  have gives := gives_written foldable draft.events ready.lasting writable
  constructor
  · rw [pauseOf?, header, Option.map_some, Nat.sub_add_cancel foldable.1]
  · have array : noteArray block = noteBytes draft.notes := by
      rw [noteArray, header]
      exact notes
    calc foldedTones block
      _ = (noteBytes draft.notes).countP isFolded := by rw [foldedTones, array]
      _ = draft.notes.countP (·.code.folds) := countP_noteBytes gives.sound
      _ = _ := countP_written foldable.2 draft.events

theorem within_foldablePauses (events : List Event) (lasting : ∀ event ∈ events, 0 < event.ticks) :
    ∀ ticks ∈ foldablePauses events, 0 < ticks ∧ ticks ≤ maxFoldedPause := by
  induction events with
  | nil => exact nofun
  | cons before events ih =>
    cases events with
    | nil => exact nofun
    | cons after later =>
      rw [List.forall_mem_cons] at lasting
      have others := ih lasting.2
      rw [foldablePauses]
      split
      next folds =>
        rw [Bool.and_eq_true, decide_eq_true_iff] at folds
        rw [List.forall_mem_cons]
        exact ⟨⟨lasting.2 after List.mem_cons_self, folds.2⟩, others⟩
      · exact others

theorem encode_congr {first second : TrackDraft} (channel : first.channel = second.channel)
    (events : first.events = second.events) (pause : first.foldedPause = second.foldedPause) :
    first.encode = second.encode := by
  unfold encode
  rw [channel, events, pause]

theorem foldedPause_withPause {ticks : Nat} (some : 0 < ticks) (most : ticks ≤ maxFoldedPause) :
    (draft.withPause ticks).foldedPause = ticks := by
  show min (max ticks 1) maxFoldedPause = ticks
  omega

theorem ready_withPause (ready : draft.Ready) (ticks : Nat) : (draft.withPause ticks).Ready :=
  ⟨ready.lasting, withPause_foldable draft ticks⟩

theorem foldedPause_of_notes (channel : UInt8) (notes : List Event) :
    (ofCalls channel (notes.map .note)).foldedPause =
      commonPause (foldablePauses (ofCalls channel (notes.map .note)).events) := by
  have none : (ofCalls channel (notes.map .note)).pause = none := by
    rw [ofCalls, pause_foldl_call _ rfl, TrackCall.filter_isPause_map_note]
    rfl
  rw [foldedPause, none, Option.getD_none]

/-- The pause that a track takes on its own folds the most rests. Set for the track, it gives the same block,
and a shorter one folds fewer. It is 1 if there is nothing to fold, and the best of a count of the rests,
whatever order the entries of the count are looked through in. -/
theorem own_pause_folds_most (channel : UInt8) {notes : List Event}
    (short : ∀ event ∈ notes, event.ticks ≤ maxTicks) {block : List UInt8}
    (encoded : (ofCalls channel (notes.map .note)).encode = .ok block) :
    ∃ pause, pauseOf? block = some pause ∧ 0 < pause ∧ pause ≤ maxFoldedPause ∧
      ((ofCalls channel (notes.map .note)).withPause pause).encode = .ok block ∧
      (∀ ticks other, 0 < ticks → ticks ≤ maxFoldedPause →
        ((ofCalls channel (notes.map .note)).withPause ticks).encode = .ok other →
          pauseOf? other = some ticks ∧ foldedTones other ≤ foldedTones block ∧
          (foldedTones other = foldedTones block → pause ≤ ticks)) ∧
      (foldedTones block = 0 → pause = 1) ∧
      ∀ entries,
        Tally.Lists entries (Tally.ofPauses (foldablePauses (ofCalls channel (notes.map .note)).events)) →
          Tally.mostCounted entries = pause := by
  have noted : TrackCall.events (notes.map .note) = notes := TrackCall.events_map_note notes
  have ready : (ofCalls channel (notes.map .note)).Ready := ready_ofCalls channel (by rwa [noted])
  have own := foldedPause_of_notes channel notes
  generalize ofCalls channel (notes.map .note) = draft at encoded ready own ⊢
  have commonest := commonest_commonPause (foldablePauses draft.events)
  rw [← own] at commonest
  obtain ⟨pause, folded⟩ := foldedTones_of_encode ready encoded
  refine ⟨draft.foldedPause, pause, commonest.positive, commonest.within, ?_, ?_, ?_, ?_⟩
  · rw [← encoded]
    exact encode_congr rfl rfl (foldedPause_withPause commonest.positive commonest.within)
  · intro ticks other some most written
    obtain ⟨chosen, foldedOther⟩ := foldedTones_of_encode (ready_withPause ready ticks) written
    rw [foldedPause_withPause some most] at chosen foldedOther
    rw [folded, foldedOther]
    exact ⟨chosen, commonest.most ticks some most, commonest.shortest ticks some most⟩
  · intro none
    have fewer := commonest.most 1 Nat.one_pos (by decide)
    rw [← folded, none, Nat.le_zero] at fewer
    have least := commonest.shortest 1 Nat.one_pos (by decide) (by rw [fewer, ← folded, none])
    exact Nat.le_antisymm least commonest.positive
  · intro entries lists
    have within := within_foldablePauses draft.events ready.lasting
    exact (Tally.commonest_mostCounted (by decide) within lists).unique commonest

/-- Tones that are followed by a rest of five ticks and by one of three in turn. -/
def alternating : List Event :=
  [⟨.tone 4, 1⟩, ⟨.rest, 5⟩, ⟨.tone 6, 1⟩, ⟨.rest, 3⟩, ⟨.tone 4, 1⟩, ⟨.rest, 5⟩, ⟨.tone 6, 1⟩, ⟨.rest, 3⟩]

set_option maxRecDepth 4096 in
/-- Either pause folds two rests, so the shorter one is taken. -/
theorem shorter_pause_taken :
    (ofCalls 0 (alternating.map .note)).encode =
        .ok [0, 14, 0, 13, 0, 2, 4, 174, 91, 4, 174, 91, 255, 131] ∧
      ((ofCalls 0 (alternating.map .note)).withPause 5).encode =
        .ok [0, 14, 0, 13, 0, 4, 89, 6, 172, 89, 6, 172, 255, 131] ∧
      foldedTones [0, 14, 0, 13, 0, 4, 89, 6, 172, 89, 6, 172, 255, 131] ≤
        foldedTones [0, 14, 0, 13, 0, 2, 4, 174, 91, 4, 174, 91, 255, 131] ∧
      Tally.mostCounted [(5, 2), (3, 2)] = 3 ∧ Tally.mostCounted [(3, 2), (5, 2)] = 3 := by
  have encoded : (ofCalls 0 (alternating.map .note)).encode =
      .ok [0, 14, 0, 13, 0, 2, 4, 174, 91, 4, 174, 91, 255, 131] := by
    cbv
  have encodedFive : ((ofCalls 0 (alternating.map .note)).withPause 5).encode =
      .ok [0, 14, 0, 13, 0, 4, 89, 6, 172, 89, 6, 172, 255, 131] := by
    cbv
  have pauses : foldablePauses (ofCalls 0 (alternating.map .note)).events = [5, 3, 5, 3] := by decide
  obtain ⟨pause, three, -, -, -, most, -, counted⟩ := own_pause_folds_most 0 (by decide) encoded
  cases three
  rw [pauses] at counted
  have lists : Tally.Lists [(5, 2), (3, 2)] (Tally.ofPauses [5, 3, 5, 3]) := by
    rintro ⟨ticks, count⟩
    rw [Tally.ofPauses_eq_count]
    simp only [List.mem_cons, List.not_mem_nil, or_false, Prod.mk.injEq, List.count_cons, List.count_nil]
    grind
  have reversed : Tally.Lists [(3, 2), (5, 2)] (Tally.ofPauses [5, 3, 5, 3]) := by
    intro entry
    rw [← lists entry, List.mem_pair, List.mem_pair, or_comm]
  refine ⟨encoded, encodedFive, (most 5 _ (by decide) (by decide) encodedFive).2.1, ?_, ?_⟩
  · exact counted _ lists
  · exact counted _ reversed

end Folding

end TrackDraft

end Buzzer
