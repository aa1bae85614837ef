import Buzzer.Command.Arrangement

/-!
Arrays for C programs, read back. What counts in the text of an array are the items between its braces. They
are the bytes that it was written for, however many of them there are and whatever the name of the array
is, even if that has braces of its own.
-/
namespace Buzzer

namespace Command

/-! Reading the text of an array. -/

/-- What follows the last opening brace of a text. -/
def afterBrace (text : List Char) : List Char := (text.reverse.takeWhile (· ≠ '\x7b')).reverse

/-- The text between the braces of an array. -/
def arrayBody (text : List Char) : List Char := (afterBrace text).takeWhile (· ≠ '\x7d')

def hexDigit? (digit : Char) : Option Nat :=
  if '0' ≤ digit ∧ digit ≤ '9' then some (digit.toNat - '0'.toNat)
  else if 'a' ≤ digit ∧ digit ≤ 'f' then some (digit.toNat - 'a'.toNat + 10)
  else none

/-- The number that some digits stand for, the highest first. -/
def hexNumber? (digits : List Char) : Option Nat :=
  digits.foldlM (fun value digit => (hexDigit? digit).map (value * 16 + ·)) 0

/-- The byte that an item stands for. -/
def itemByte? : List Char → Option UInt8
  | '0' :: 'x' :: digits => do
    let value ← hexNumber? digits
    if value < 0x100 then some (UInt8.ofNat value) else none
  | _ => none

/-- The bytes of an array: the items between its braces, parted by commas. Blanks and ends of lines do not
count, and nothing has to follow the last comma. -/
def arrayBytes? (text : List Char) : Option (List UInt8) :=
  ((((arrayBody text).filter (!·.isWhitespace)).splitOn ',').filter (· ≠ [])).mapM itemByte?

/-! Items. -/

/-- The characters of an item without its comma. -/
def itemChars (byte : UInt8) : List Char :=
  ['0', 'x', Nat.digitChar (byte.toNat / 16), Nat.digitChar (byte.toNat % 16)]

theorem toList_byteItem (byte : UInt8) : (byteItem byte).toList = itemChars byte ++ [','] := by
  have marker : "0x".toList = ['0', 'x'] := by decide
  simp only [byteItem, String.toList_push, marker, itemChars]
  rfl

/-- Whether a character can stand in an item. -/
def isItemChar (char : Char) : Bool :=
  char ≠ ',' && char ≠ '\x7b' && char ≠ '\x7d' && !char.isWhitespace

theorem digitChar_inItem {value : Nat} (small : value < 16) :
    isItemChar (Nat.digitChar value) = true ∧ hexDigit? (Nat.digitChar value) = some value := by
  revert value
  decide

theorem toNat_halves (byte : UInt8) : byte.toNat / 16 < 16 ∧ byte.toNat % 16 < 16 := by
  have small := byte.toNat_lt
  omega

theorem itemChars_inItem (byte : UInt8) : ∀ char ∈ itemChars byte, isItemChar char = true := by
  obtain ⟨high, low⟩ := toNat_halves byte
  intro char member
  simp only [itemChars, List.mem_cons, List.not_mem_nil, or_false] at member
  rcases member with rfl | rfl | rfl | rfl
  · decide
  · decide
  · exact (digitChar_inItem high).1
  · exact (digitChar_inItem low).1

theorem itemByte?_itemChars (byte : UInt8) : itemByte? (itemChars byte) = some byte := by
  obtain ⟨high, low⟩ := toNat_halves byte
  have whole : (0 * 16 + byte.toNat / 16) * 16 + byte.toNat % 16 = byte.toNat := by omega
  have number : hexNumber? [Nat.digitChar (byte.toNat / 16), Nat.digitChar (byte.toNat % 16)] =
      some byte.toNat := by
    simp only [hexNumber?, List.foldlM_cons, List.foldlM_nil, (digitChar_inItem high).2,
      (digitChar_inItem low).2, Option.map_some, Option.bind_eq_bind, Option.bind_some, whole]
    rfl
  have small : byte.toNat < 0x100 := byte.toNat_lt
  simp only [itemChars, itemByte?, number, Option.bind_eq_bind, Option.bind_some, small, if_true,
    UInt8.ofNat_toNat]

/-! Lines. -/

/-- Whether a character can stand between the braces of an array. -/
def isBodyChar (char : Char) : Bool := char ≠ '\x7b' && char ≠ '\x7d'

theorem isBodyChar_of_isItemChar {char : Char} (inItem : isItemChar char = true) :
    isBodyChar char = true := by
  simp only [isItemChar, isBodyChar, Bool.and_eq_true] at inItem ⊢
  exact ⟨inItem.1.1.2, inItem.1.2⟩

theorem filter_itemChars (byte : UInt8) :
    (itemChars byte).filter (!·.isWhitespace) = itemChars byte := by
  rw [List.filter_eq_self]
  intro char member
  have inItem := itemChars_inItem byte char member
  simp only [isItemChar, Bool.and_eq_true] at inItem
  exact inItem.2

/-- The items of a line, with a blank between them. -/
theorem filter_intercalate (bytes : List UInt8) :
    ([' '].intercalate (bytes.map fun byte => (byteItem byte).toList)).filter (!·.isWhitespace) =
      bytes.flatMap fun byte => itemChars byte ++ [','] := by
  induction bytes with
  | nil => rfl
  | cons byte bytes ih =>
    have item : ((byteItem byte).toList).filter (!·.isWhitespace) = itemChars byte ++ [','] := by
      rw [toList_byteItem, List.filter_append, filter_itemChars]
      rfl
    cases bytes with
    | nil => rw [List.map_singleton, List.intercalate_singleton, item, List.flatMap_singleton]
    | cons next later =>
      have blank : [' '].filter (!·.isWhitespace) = [] := by decide
      rw [List.map_cons] at ih
      rw [List.map_cons, List.map_cons, List.intercalate_cons_cons, List.filter_append,
        List.filter_append, item, blank, List.append_nil, ih]
      rfl

theorem toList_arrayLine (bytes : List UInt8) :
    (arrayLine bytes).toList = [' ', ' ', ' ', ' '] ++
      [' '].intercalate (bytes.map fun byte => (byteItem byte).toList) ++ ['\n'] := by
  have indent : "    ".toList = [' ', ' ', ' ', ' '] := by decide
  have blank : " ".toList = [' '] := by decide
  have lineEnd : "\n".toList = ['\n'] := by decide
  simp only [arrayLine, String.toList_append, String.toList_intercalate, List.map_map, indent, blank,
    lineEnd]
  rfl

theorem filter_arrayLine (bytes : List UInt8) :
    (arrayLine bytes).toList.filter (!·.isWhitespace) =
      bytes.flatMap fun byte => itemChars byte ++ [','] := by
  have indent : [' ', ' ', ' ', ' '].filter (!·.isWhitespace) = [] := by decide
  have lineEnd : ['\n'].filter (!·.isWhitespace) = [] := by decide
  rw [toList_arrayLine, List.filter_append, List.filter_append, filter_intercalate, indent, lineEnd,
    List.nil_append, List.append_nil]

theorem intercalate_inBody (bytes : List UInt8) :
    ∀ char ∈ [' '].intercalate (bytes.map fun byte => (byteItem byte).toList),
      isBodyChar char = true := by
  induction bytes with
  | nil =>
    intro char member
    cases member
  | cons byte bytes ih =>
    have item : ∀ char ∈ (byteItem byte).toList, isBodyChar char = true := by
      intro char member
      rw [toList_byteItem, List.mem_append, List.mem_singleton] at member
      rcases member with among | rfl
      · exact isBodyChar_of_isItemChar (itemChars_inItem byte char among)
      · decide
    cases bytes with
    | nil =>
      rw [List.map_singleton, List.intercalate_singleton]
      exact item
    | cons next later =>
      rw [List.map_cons] at ih
      rw [List.map_cons, List.map_cons, List.intercalate_cons_cons]
      intro char member
      rw [List.mem_append, List.mem_append, List.mem_singleton] at member
      rcases member with (among | rfl) | among
      · exact item char among
      · decide
      · exact ih char among

theorem arrayLine_inBody (bytes : List UInt8) :
    ∀ char ∈ (arrayLine bytes).toList, isBodyChar char = true := by
  have indent : [' ', ' ', ' ', ' '].all isBodyChar = true := by decide
  have lineEnd : ['\n'].all isBodyChar = true := by decide
  intro char member
  rw [toList_arrayLine, List.mem_append, List.mem_append] at member
  rcases member with (among | among) | among
  · exact List.all_eq_true.mp indent char among
  · exact intercalate_inBody bytes char among
  · exact List.all_eq_true.mp lineEnd char among

/-! Whole arrays. -/

theorem flatten_chunks {α : Type} (size : Nat) (values : List α) :
    (chunks size values).flatten = values := by
  fun_induction chunks size values with
  | case1 => rfl
  | case2 value rest ih => rw [List.flatten_cons, ih, List.cons_append, List.take_append_drop]

/-- The text between the braces of the array of some bytes. -/
def bodyChars (bytes : List UInt8) : List Char :=
  '\n' :: ((chunks 12 bytes).map fun line => (arrayLine line).toList).flatten

theorem bodyChars_inBody (bytes : List UInt8) : ∀ char ∈ bodyChars bytes, isBodyChar char = true := by
  intro char member
  rcases List.mem_cons.mp member with rfl | among
  · decide
  · obtain ⟨chars, line, inChars⟩ := List.mem_flatten.mp among
    obtain ⟨bytes, -, rfl⟩ := List.mem_map.mp line
    exact arrayLine_inBody bytes char inChars

/-- However the bytes are spread over lines, their items come one after another. -/
theorem filter_lines (lines : List (List UInt8)) :
    ((lines.map fun line => (arrayLine line).toList).flatten).filter (!·.isWhitespace) =
      lines.flatten.flatMap fun byte => itemChars byte ++ [','] := by
  induction lines with
  | nil => rfl
  | cons line lines ih =>
    rw [List.map_cons, List.flatten_cons, List.filter_append, filter_arrayLine, ih, List.flatten_cons,
      List.flatMap_append]

theorem filter_bodyChars (bytes : List UInt8) :
    (bodyChars bytes).filter (!·.isWhitespace) = bytes.flatMap fun byte => itemChars byte ++ [','] := by
  have lineEnd : ['\n'].filter (!·.isWhitespace) = [] := by decide
  rw [bodyChars, ← List.singleton_append, List.filter_append, lineEnd, List.nil_append, filter_lines,
    flatten_chunks]

theorem splitOn_items (bytes : List UInt8) :
    (bytes.flatMap fun byte => itemChars byte ++ [',']).splitOn ',' = bytes.map itemChars ++ [[]] := by
  induction bytes with
  | nil => rfl
  | cons byte bytes ih =>
    have inItem : ∀ char ∈ itemChars byte, (char == ',') = false := by
      intro char member
      have allowed := itemChars_inItem byte char member
      simp only [isItemChar, Bool.and_eq_true, decide_eq_true_eq] at allowed
      exact beq_eq_false_iff_ne.mpr allowed.1.1.1
    rw [List.splitOn_eq_splitOnP] at ih ⊢
    rw [List.flatMap_cons, List.append_assoc, List.singleton_append,
      List.splitOnP_append_cons_of_forall_mem inItem ',' (by decide), ih, List.map_cons, List.cons_append]

theorem mapM_itemByte? (bytes : List UInt8) : (bytes.map itemChars).mapM itemByte? = some bytes := by
  induction bytes with
  | nil => rfl
  | cons byte bytes ih =>
    rw [List.map_cons, List.mapM_cons, itemByte?_itemChars, ih]
    rfl

theorem toList_join (texts : List String) :
    ("".intercalate texts).toList = (texts.map String.toList).flatten := by
  have joined (parts : List (List Char)) : [].intercalate parts = parts.flatten := by
    induction parts with
    | nil => rfl
    | cons part parts ih =>
      cases parts with
      | nil => rw [List.intercalate_singleton, List.flatten_singleton]
      | cons next later =>
        rw [List.intercalate_cons_cons, List.append_nil, ih, List.flatten_cons (l := part)]
  rw [String.toList_intercalate, String.toList_empty, joined]

/-- The body of an array stands behind the opening brace that is the last of all, whatever the name
before it is. -/
theorem toList_arrayText (name : String) (bytes : List UInt8) :
    ∃ before, (arrayText name bytes).toList =
      before ++ '\x7b' :: (bodyChars bytes ++ '\x7d' :: [';', '\n']) := by
  have opening : "[] = \x7b\n".toList = ['[', ']', ' ', '=', ' '] ++ ['\x7b', '\n'] := by decide
  have closing : "\x7d;\n".toList = ['\x7d', ';', '\n'] := by decide
  unfold arrayText
  generalize "#include \"music.h\"\n\nstatic _FLASH uint8_t " = declaration
  refine ⟨declaration.toList ++ name.toList ++ ['[', ']', ' ', '=', ' '], ?_⟩
  simp only [String.toList_append, toList_join, List.map_map, opening, closing, bodyChars,
    List.append_assoc, List.cons_append, List.nil_append, Function.comp_def]

theorem afterBrace_append {rest : List Char} (before : List Char) (none : ∀ char ∈ rest, char ≠ '\x7b') :
    afterBrace (before ++ '\x7b' :: rest) = rest := by
  have all : ∀ char ∈ rest.reverse, decide (char ≠ '\x7b') = true := fun char member =>
    decide_eq_true (none char (List.mem_reverse.mp member))
  rw [afterBrace, List.reverse_append, List.reverse_cons, List.append_assoc,
    List.takeWhile_append_of_pos all, List.singleton_append,
    List.takeWhile_cons_of_neg (by decide), List.append_nil, List.reverse_reverse]

theorem arrayBody_arrayText (name : String) (bytes : List UInt8) :
    arrayBody (arrayText name bytes).toList = bodyChars bytes := by
  obtain ⟨before, text⟩ := toList_arrayText name bytes
  have inBody (char : Char) (member : char ∈ bodyChars bytes) : char ≠ '\x7b' ∧ char ≠ '\x7d' := by
    have allowed := bodyChars_inBody bytes char member
    rwa [isBodyChar, Bool.and_eq_true, decide_eq_true_eq, decide_eq_true_eq] at allowed
  have outside : ['\x7d', ';', '\n'].all (· ≠ '\x7b') = true := by decide
  have opensBefore : ∀ char ∈ bodyChars bytes ++ '\x7d' :: [';', '\n'], char ≠ '\x7b' := by
    intro char member
    rcases List.mem_append.mp member with among | among
    · exact (inBody char among).1
    · exact of_decide_eq_true (List.all_eq_true.mp outside char among)
  rw [arrayBody, text, afterBrace_append before opensBefore,
    List.takeWhile_append_of_pos fun char member => decide_eq_true (inBody char member).2,
    List.takeWhile_cons_of_neg (by decide), List.append_nil]

/-- The items between the braces of an array are the bytes that it is written for. -/
theorem arrayBytes?_arrayText (name : String) (bytes : List UInt8) :
    arrayBytes? (arrayText name bytes).toList = some bytes := by
  have items : (bytes.map itemChars).filter (· ≠ []) = bytes.map itemChars := by
    rw [List.filter_eq_self]
    intro item member
    obtain ⟨byte, -, rfl⟩ := List.mem_map.mp member
    exact decide_eq_true (List.cons_ne_nil _ _)
  have behind : [([] : List Char)].filter (· ≠ []) = [] := rfl
  rw [arrayBytes?, arrayBody_arrayText, filter_bodyChars, splitOn_items, List.filter_append, items, behind,
    List.append_nil, mapM_itemByte?]

example : arrayBytes? "song\x7b2\x7d[] = \x7b\n    0x0a, 0xff,\n\x7d;\n".toList = some [10, 255] := by decide

end Command

end Buzzer
