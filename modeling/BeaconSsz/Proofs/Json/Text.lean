import BeaconSsz.Json.Printer
import BeaconSsz.Json.Reader
import Mathlib.Data.List.Nodup
import Mathlib.Data.List.TakeWhile
import Mathlib.Tactic.SplitIfs

/-!
# The text of JSON is read back

The text that a value is spread over stands for the value, among any blanks, if the value has no
numbers and no key twice, and is nested no deeper than may be read. Of the text, only where each
value starts and ends has to be known: inside of strings all quotes are escaped, and outside of
them stand brackets, commas, colons and blanks.
-/

namespace BeaconSsz

namespace Json

/-- JSON that is read back from its text where so many levels are allowed. -/
inductive Legible : Nat → Json → Prop
  | null {nesting : Nat} : Legible nesting null
  | boolean {nesting : Nat} (value : Bool) : Legible nesting (boolean value)
  | string {nesting : Nat} (content : String) : Legible nesting (string content)
  | array {nesting : Nat} {elements : List Json}
      (helements : ∀ element ∈ elements, Legible nesting element) :
      Legible (nesting + 1) (array elements)
  | object {nesting : Nat} {members : List (String × Json)}
      (hdistinct : (members.map Prod.fst).Nodup)
      (hmembers : ∀ member ∈ members, Legible nesting member.2) :
      Legible (nesting + 1) (object members)

/-- What is read back is so where more levels are allowed. -/
theorem Legible.mono {nesting allowed : Nat} {json : Json} (h : json.Legible nesting)
    (hallowed : nesting ≤ allowed) : json.Legible allowed := by
  induction h generalizing allowed with
  | null => exact .null
  | boolean value => exact .boolean value
  | string content => exact .string content
  | array _ ih =>
    obtain ⟨allowed, rfl⟩ := Nat.exists_eq_add_of_lt hallowed
    exact .array fun element helement => ih element helement (by omega)
  | object hdistinct _ ih =>
    obtain ⟨allowed, rfl⟩ := Nat.exists_eq_add_of_lt hallowed
    exact .object hdistinct fun member hmember => ih member hmember (by omega)

/-- The characters inside the quotes of a string. -/
def contentChars (content : String) : List Char :=
  content.toList.flatMap fun c => (escape c).toList

/-- The characters of a string. -/
def stringChars (content : String) : List Char :=
  '"' :: contentChars content ++ ['"']

/-- The characters that start a line at a level. -/
def lineChars (level : Nat) : List Char :=
  '\n' :: List.replicate (2 * level) ' '

mutual

/-- The characters of a value, with what it holds on lines of their own one level deeper. -/
def chars (level : Nat) : Json → List Char
  | null => ['n', 'u', 'l', 'l']
  | boolean value => if value then ['t', 'r', 'u', 'e'] else ['f', 'a', 'l', 's', 'e']
  | natural value => (toString value.toNat).toList
  | decimal negative significand exponent => (writeDecimal "" negative significand exponent).toList
  | string content => stringChars content
  | array [] => ['[', ']']
  | array (element :: rest) =>
    '[' :: (lineChars (level + 1) ++ (element.chars (level + 1) ++
      (elementChars (level + 1) rest ++ (lineChars level ++ [']']))))
  | object [] => ['\x7b', '\x7d']
  | object ((key, value) :: rest) =>
    '\x7b' :: (lineChars (level + 1) ++ (stringChars key ++ ':' :: ' ' :: (value.chars (level + 1) ++
      (memberChars (level + 1) rest ++ (lineChars level ++ ['\x7d'])))))

/-- The characters of elements that follow another one. -/
def elementChars (level : Nat) : List Json → List Char
  | [] => []
  | element :: rest => ',' :: (lineChars level ++ (element.chars level ++ elementChars level rest))

/-- The characters of members that follow another one. -/
def memberChars (level : Nat) : List (String × Json) → List Char
  | [] => []
  | (key, value) :: rest =>
    ',' :: (lineChars level ++ (stringChars key ++ ':' :: ' ' :: (value.chars level ++
      memberChars level rest)))

end

/-- A line is started behind what is there. -/
theorem toList_newLine (done : String) (level : Nat) :
    (newLine done level).toList = done.toList ++ lineChars level := by
  rw [newLine, String.toList_append, String.toList_ofList, lineChars]

/-- A string is written behind what is there. -/
theorem toList_writeString (done content : String) :
    (writeString done content).toList = done.toList ++ stringChars content := by
  have hfold (cs : List Char) (done : String) :
      (cs.foldl (fun done c => done ++ escape c) done).toList =
        done.toList ++ cs.flatMap fun c => (escape c).toList := by
    induction cs generalizing done with
    | nil => rw [List.foldl_nil, List.flatMap_nil, List.append_nil]
    | cons c cs ih =>
      rw [List.foldl_cons, ih, List.flatMap_cons, String.toList_append, List.append_assoc]
  simp [writeString, hfold, stringChars, contentChars]

mutual

/-- A value is written behind what is there. -/
theorem toList_spread (level : Nat) (done : String) : (json : Json) →
    (spread level done json).toList = done.toList ++ json.chars level
  | null => by simp [spread, chars]
  | boolean value => by cases value <;> simp [spread, writeBoolean, chars]
  | natural value => by simp [spread, chars]
  | decimal negative significand exponent => by simp [spread, chars, writeDecimal]
  | string content => by rw [spread, toList_writeString, chars]
  | array [] => by simp [spread, chars]
  | array (element :: rest) => by
    simp [spread, chars, toList_newLine, toList_spreadElements (level + 1) _ rest,
      toList_spread (level + 1) _ element]
  | object [] => by simp [spread, chars]
  | object ((key, value) :: rest) => by
    simp [spread, chars, toList_newLine, toList_writeString,
      toList_spreadMembers (level + 1) _ rest, toList_spread (level + 1) _ value]

/-- Elements are written behind what is there. -/
theorem toList_spreadElements (level : Nat) (done : String) : (elements : List Json) →
    (spreadElements level done elements).toList = done.toList ++ elementChars level elements
  | [] => by simp [spreadElements, elementChars]
  | element :: rest => by
    simp [spreadElements, elementChars, toList_newLine, toList_spreadElements level _ rest,
      toList_spread level _ element]

/-- Members are written behind what is there. -/
theorem toList_spreadMembers (level : Nat) (done : String) : (members : List (String × Json)) →
    (spreadMembers level done members).toList = done.toList ++ memberChars level members
  | [] => by simp [spreadMembers, memberChars]
  | (key, value) :: rest => by
    simp [spreadMembers, memberChars, toList_newLine, toList_writeString,
      toList_spreadMembers level _ rest, toList_spread level _ value]

end

/-- A control character is read from its code. -/
theorem codeUnit?_digits : ∀ code < 32,
    codeUnit? '0' '0' (Hex.digit (code / 16)) (Hex.digit (code % 16)) = some code := by
  decide

/-- A character is read from what stands for it in a string. -/
theorem readString_escape (done : List Char) (c : Char) (rest : List Char) :
    readString done ((escape c).toList ++ rest) = readString (c :: done) rest := by
  -- A control character without a letter of its own has a code; what is not escaped stands for itself.
  unfold escape
  split_ifs with hquote hslash hback hform hline hreturn htab hcontrol
  · subst hquote; simp [readString, unescape?]
  · subst hslash; simp [readString, unescape?]
  · subst hback; simp [readString, unescape?]
  · subst hform; simp [readString, unescape?]
  · subst hline; simp [readString, unescape?]
  · subst hreturn; simp [readString, unescape?]
  · subst htab; simp [readString, unescape?]
  · have hcode : (UInt8.ofNat c.toNat).toNat = c.toNat :=
      UInt8.toNat_ofNat_of_lt' (by rw [UInt8.size]; omega)
    have hunit := codeUnit?_digits c.toNat hcontrol
    have hhigh : isHighUnit c.toNat = false := by simp [isHighUnit]; omega
    have hlow : isLowUnit c.toNat = false := by simp [isLowUnit]; omega
    simp [Hex.text, Hex.encode, Hex.encodeByte, hcode, readString, hunit, hhigh, hlow]
  · have hprinted : ¬ (c < ' ' ∨ c = '\\') := by
      rw [Char.lt_def, UInt32.lt_iff_toNat_lt, not_or]
      exact ⟨hcontrol, hslash⟩
    rw [String.toList_singleton, List.singleton_append, readString, if_neg hprinted]
    · exact hquote
    · exact fun _ _ _ _ _ h => absurd h hslash
    · exact fun _ _ h => absurd h hslash

/-- A string is read from its characters. -/
theorem readString_contentChars (content : String) (rest : List Char) :
    readString [] (contentChars content ++ '"' :: rest) = some (content, rest) := by
  have hread (cs done : List Char) :
      readString done (cs.flatMap (fun c => (escape c).toList) ++ '"' :: rest) =
        some (String.ofList (done.reverse ++ cs), rest) := by
    induction cs generalizing done with
    | nil => simp [readString]
    | cons c cs ih =>
      rw [List.flatMap_cons, List.append_assoc, readString_escape, ih, List.reverse_cons,
        List.append_assoc, List.singleton_append]
  rw [contentChars, hread, List.reverse_nil, List.nil_append, String.ofList_toList]

/-- Blanks in front of something else are skipped. -/
theorem skipBlanks_append {front : List Char} (hfront : ∀ c ∈ front, isBlank c = true) {c : Char}
    (hc : isBlank c = false) (rest : List Char) : skipBlanks (front ++ c :: rest) = c :: rest := by
  rw [skipBlanks, List.dropWhile_append_of_pos hfront, List.dropWhile_cons_of_neg]
  rw [hc]
  exact Bool.false_ne_true

/-- Nothing is skipped in front of a sign. -/
theorem skipBlanks_cons {c : Char} (hc : isBlank c = false) (rest : List Char) :
    skipBlanks (c :: rest) = c :: rest :=
  skipBlanks_append (List.forall_mem_nil _) hc rest

/-- A line starts with blanks. -/
theorem isBlank_of_mem_lineChars (level : Nat) : ∀ c ∈ lineChars level, isBlank c = true := by
  intro c hc
  rw [lineChars, List.mem_cons, List.mem_replicate] at hc
  rcases hc with rfl | ⟨-, rfl⟩ <;> rfl

/-- The start of a line is skipped. -/
theorem skipBlanks_lineChars (level : Nat) {c : Char} (hc : isBlank c = false)
    (rest : List Char) : skipBlanks (lineChars level ++ c :: rest) = c :: rest :=
  skipBlanks_append (isBlank_of_mem_lineChars level) hc rest

namespace Legible

variable {nesting : Nat} {json : Json}

/-- A value starts neither with a blank nor with the end of an array. -/
theorem exists_chars_eq_cons (h : json.Legible nesting) (level : Nat) :
    ∃ c rest, json.chars level = c :: rest ∧ isBlank c = false ∧ c ≠ ']' := by
  cases h with
  | null => exact ⟨_, _, rfl, by decide⟩
  | boolean value => cases value <;> exact ⟨_, _, rfl, by decide⟩
  | string content => exact ⟨_, _, rfl, by decide⟩
  | @array _ elements => cases elements <;> exact ⟨_, _, by rw [chars], by decide⟩
  | @object _ members => cases members <;> exact ⟨_, _, by rw [chars], by decide⟩

/-- A value is reached behind the blanks in front of it. -/
theorem skipBlanks_chars (h : json.Legible nesting) (level : Nat) {front : List Char}
    (hfront : ∀ c ∈ front, isBlank c = true) (rest : List Char) :
    skipBlanks (front ++ (json.chars level ++ rest)) = json.chars level ++ rest := by
  obtain ⟨c, behind, hchars, hblank, -⟩ := h.exists_chars_eq_cons level
  rw [hchars, List.cons_append, skipBlanks_append hfront hblank]

/-- A value is reached behind the space in front of it. -/
theorem skipBlanks_space (h : json.Legible nesting) (level : Nat) (rest : List Char) :
    skipBlanks (' ' :: (json.chars level ++ rest)) = json.chars level ++ rest :=
  h.skipBlanks_chars level (List.forall_mem_singleton.mpr rfl) rest

end Legible

/-- The value is read from its characters, at whatever level and whatever follows, in no more steps
than there are characters. -/
def ReadBack (nesting : Nat) (json : Json) : Prop :=
  ∀ level fuel rest, (json.chars level).length ≤ fuel →
    readValue fuel nesting (json.chars level ++ rest) = some (json, rest)

/-- The elements of an array are read one after the other. -/
theorem readElements_chars {nesting level fuel : Nat} {element : Json} {elements : List Json}
    (hlegible : ∀ item ∈ element :: elements, item.Legible nesting)
    (hread : ∀ item ∈ element :: elements, item.ReadBack nesting)
    (hfuel : (element.chars level).length + (elementChars level elements).length < fuel)
    (done : List Json) (outer : Nat) (rest : List Char) :
    readElements fuel nesting done
        (element.chars level ++ (elementChars level elements ++ (lineChars outer ++ ']' :: rest))) =
      some (array (done.reverse ++ element :: elements), rest) := by
  induction elements generalizing element fuel done with
  | nil =>
    obtain ⟨fuel, rfl⟩ := Nat.exists_eq_add_of_lt hfuel
    rw [readElements, hread element List.mem_cons_self level _ _ (by omega)]
    simp [elementChars, skipBlanks_lineChars, isBlank]
  | cons next elements ih =>
    obtain ⟨fuel, rfl⟩ := Nat.exists_eq_add_of_lt hfuel
    rw [List.forall_mem_cons] at hlegible hread
    have hnext := (hlegible.2 next List.mem_cons_self).skipBlanks_chars level
      (isBlank_of_mem_lineChars level)
      (elementChars level elements ++ (lineChars outer ++ ']' :: rest))
    -- The comma and the start of the line are skipped in front of the next element.
    rw [readElements, hread.1 level _ _ (by omega)]
    simp only [elementChars, List.cons_append, List.append_assoc, hnext,
      skipBlanks_cons (show isBlank ',' = false from rfl)]
    rw [ih hlegible.2 hread.2]
    · simp
    · simp only [elementChars, List.length_cons, List.length_append] at *
      omega

/-- Among distinct keys, one does not stand in front of itself. -/
theorem not_mem_keys {key : String} {value : Json} {members done : List (String × Json)}
    (hdistinct : ((done ++ (key, value) :: members).map Prod.fst).Nodup) :
    key ∉ done.map Prod.fst := by
  rw [List.map_append, List.map_cons, List.nodup_append] at hdistinct
  exact fun hmem => hdistinct.2.2 key hmem key List.mem_cons_self rfl

/-- A key that is not there yet is added at the end. -/
theorem insert_eq_append {key : String} {members : List (String × Json)}
    (h : key ∉ members.map Prod.fst) (value : Json) :
    insert key value members = members ++ [(key, value)] := by
  rw [insert, if_neg]
  simpa using h

section Member

variable {nesting fuel level : Nat} {value : Json} {behind rest : List Char}

/-- A member in front of a comma is read behind those already read, and another one follows. -/
theorem readMembers_comma (hlegible : value.Legible nesting) (hread : value.ReadBack nesting)
    (hfuel : (value.chars level).length ≤ fuel) (hbehind : skipBlanks behind = ',' :: rest)
    (key : String) (done : List (String × Json)) :
    readMembers (fuel + 1) nesting done
        (stringChars key ++ ':' :: ' ' :: (value.chars level ++ behind)) =
      readMembers fuel nesting (insert key value done) (skipBlanks rest) := by
  simp only [stringChars, List.cons_append, List.append_assoc, List.nil_append, readMembers,
    readString_contentChars, skipBlanks_cons (show isBlank ':' = false from rfl),
    hlegible.skipBlanks_space level behind, hread level fuel behind hfuel, hbehind]

/-- A member in front of the end is read behind those already read, and is the last one. -/
theorem readMembers_end (hlegible : value.Legible nesting) (hread : value.ReadBack nesting)
    (hfuel : (value.chars level).length ≤ fuel) (hbehind : skipBlanks behind = '\x7d' :: rest)
    (key : String) (done : List (String × Json)) :
    readMembers (fuel + 1) nesting done
        (stringChars key ++ ':' :: ' ' :: (value.chars level ++ behind)) =
      some (object (insert key value done), rest) := by
  simp only [stringChars, List.cons_append, List.append_assoc, List.nil_append, readMembers,
    readString_contentChars, skipBlanks_cons (show isBlank ':' = false from rfl),
    hlegible.skipBlanks_space level behind, hread level fuel behind hfuel, hbehind]

end Member

/-- The members of an object with distinct keys are read one after the other. -/
theorem readMembers_chars {nesting level fuel : Nat} {key : String} {value : Json}
    {members done : List (String × Json)}
    (hdistinct : ((done ++ (key, value) :: members).map Prod.fst).Nodup)
    (hlegible : ∀ member ∈ (key, value) :: members, member.2.Legible nesting)
    (hread : ∀ member ∈ (key, value) :: members, member.2.ReadBack nesting)
    (hfuel : (value.chars level).length + (memberChars level members).length < fuel)
    (outer : Nat) (rest : List Char) :
    readMembers fuel nesting done (stringChars key ++ ':' :: ' ' :: (value.chars level ++
        (memberChars level members ++ (lineChars outer ++ '\x7d' :: rest)))) =
      some (object (done ++ (key, value) :: members), rest) := by
  obtain ⟨fuel, rfl⟩ : ∃ less, fuel = less + 1 := ⟨fuel - 1, by omega⟩
  induction members generalizing key value fuel done with
  | nil =>
    have hvalue : value.Legible nesting := hlegible _ List.mem_cons_self
    have hroom : (value.chars level).length ≤ fuel := by omega
    rw [memberChars, List.nil_append, readMembers_end hvalue (hread _ List.mem_cons_self) hroom
      (skipBlanks_lineChars outer rfl rest), insert_eq_append (not_mem_keys hdistinct)]
  | cons next members ih =>
    rw [List.forall_mem_cons] at hlegible hread
    have hvalue : value.Legible nesting := hlegible.1
    have hroom : (value.chars level).length ≤ fuel := by omega
    rw [memberChars, List.cons_append, readMembers_comma hvalue hread.1 hroom
      (skipBlanks_cons rfl _), insert_eq_append (not_mem_keys hdistinct)]
    simp only [memberChars, List.length_cons, List.length_append] at hfuel
    obtain ⟨fuel, rfl⟩ : ∃ less, fuel = less + 1 := ⟨fuel - 1, by omega⟩
    have hnext := skipBlanks_lineChars level (show isBlank '"' = false from rfl)
    rw [List.append_cons] at hdistinct
    have hmembers := ih hdistinct hlegible.2 hread.2 fuel (by omega)
    simp only [stringChars, List.cons_append, List.append_assoc, List.nil_append, hnext] at hmembers ⊢
    exact hmembers

/-- An array that does not end at once has elements. -/
theorem readValue_bracket {fuel nesting : Nat} {text : List Char} {c : Char} {rest : List Char}
    (hskip : skipBlanks text = c :: rest) (hc : c ≠ ']') :
    readValue (fuel + 1) (nesting + 1) ('[' :: text) = readElements fuel nesting [] (c :: rest) := by
  simp only [readValue, Nat.add_one_ne_zero, ↓reduceIte, hskip, Nat.add_sub_cancel]
  split
  · next heq => exact absurd (List.cons.inj heq).1 hc
  · rfl

/-- An object that has a key has members. -/
theorem readValue_brace {fuel nesting : Nat} {text rest : List Char}
    (hskip : skipBlanks text = '"' :: rest) :
    readValue (fuel + 1) (nesting + 1) ('\x7b' :: text) =
      readMembers fuel nesting [] ('"' :: rest) := by
  simp only [readValue, Nat.add_one_ne_zero, ↓reduceIte, hskip, Nat.add_sub_cancel]
  rfl

/-- An array is read back if its elements are. -/
theorem readBack_array {nesting : Nat} {elements : List Json}
    (hlegible : ∀ element ∈ elements, element.Legible nesting)
    (hread : ∀ element ∈ elements, element.ReadBack nesting) :
    (array elements).ReadBack (nesting + 1) := by
  intro level fuel rest hfuel
  cases elements with
  | nil =>
    obtain ⟨fuel, rfl⟩ := Nat.exists_eq_add_of_lt hfuel
    simp [chars, readValue, skipBlanks_cons, isBlank]
  | cons element elements =>
    rw [chars] at hfuel ⊢
    simp only [List.length_cons, List.length_append] at hfuel
    obtain ⟨fuel, rfl⟩ := Nat.exists_eq_add_of_lt hfuel
    obtain ⟨c, behind, hchars, hblank, hc⟩ :=
      (hlegible element List.mem_cons_self).exists_chars_eq_cons (level + 1)
    simp only [List.cons_append, List.append_assoc, List.nil_append]
    rw [readValue_bracket (by rw [hchars, List.cons_append, skipBlanks_lineChars _ hblank]) hc,
      ← List.cons_append, ← hchars, readElements_chars hlegible hread (by omega)]
    rfl

/-- An object with distinct keys is read back if its values are. -/
theorem readBack_object {nesting : Nat} {members : List (String × Json)}
    (hdistinct : (members.map Prod.fst).Nodup)
    (hlegible : ∀ member ∈ members, member.2.Legible nesting)
    (hread : ∀ member ∈ members, member.2.ReadBack nesting) :
    (object members).ReadBack (nesting + 1) := by
  intro level fuel rest hfuel
  cases members with
  | nil =>
    obtain ⟨fuel, rfl⟩ := Nat.exists_eq_add_of_lt hfuel
    simp [chars, readValue, skipBlanks_cons, isBlank]
  | cons member members =>
    obtain ⟨key, value⟩ := member
    rw [chars] at hfuel ⊢
    simp only [List.length_cons, List.length_append] at hfuel
    obtain ⟨fuel, rfl⟩ : ∃ less, fuel = less + 1 := ⟨fuel - 1, by omega⟩
    have hroom : (value.chars (level + 1)).length + (memberChars (level + 1) members).length <
      fuel := by omega
    rw [← List.nil_append ((key, value) :: members)] at hdistinct
    have hmembers := readMembers_chars hdistinct hlegible hread hroom level rest
    simp only [stringChars, List.cons_append, List.append_assoc, List.nil_append] at hmembers ⊢
    rw [readValue_brace (skipBlanks_lineChars _ rfl _), hmembers]

/-- What is legible is read back. -/
theorem Legible.readBack {nesting : Nat} {json : Json} (h : json.Legible nesting) :
    json.ReadBack nesting := by
  induction h with
  | null =>
    intro level fuel rest hfuel
    obtain ⟨fuel, rfl⟩ := Nat.exists_eq_add_of_lt hfuel
    simp [chars, readValue]
  | boolean value =>
    intro level fuel rest hfuel
    cases value <;>
    · obtain ⟨fuel, rfl⟩ := Nat.exists_eq_add_of_lt hfuel
      simp [chars, readValue]
  | string content =>
    intro level fuel rest hfuel
    obtain ⟨fuel, rfl⟩ := Nat.exists_eq_add_of_lt hfuel
    simp [chars, stringChars, readValue, readString_contentChars]
  | array helements ih => exact readBack_array helements ih
  | object hdistinct hmembers ih => exact readBack_object hdistinct hmembers ih

/-- The text of a value is read as the value, among any blanks. -/
theorem parse?_pretty {json : Json} (h : json.Legible maxNesting) {front back : List Char}
    (hfront : ∀ c ∈ front, isBlank c = true) (hback : ∀ c ∈ back, isBlank c = true) :
    parse? (String.ofList front ++ json.pretty ++ String.ofList back) = some json := by
  have htext : (String.ofList front ++ json.pretty ++ String.ofList back).toList =
      front ++ (json.chars 0 ++ back) := by
    simp [pretty, toList_spread]
  have hend : skipBlanks back = [] := List.dropWhile_eq_nil_iff.mpr hback
  rw [parse?, htext, h.skipBlanks_chars 0 hfront, h.readBack 0 _ back]
  · simp [hend]
  · simp only [List.length_append]
    omega

/-- The bytes of a text are read as the text. -/
theorem parseBytes?_toUTF8 (text : String) : parseBytes? text.toUTF8.data.toList = parse? text := by
  have htext : String.fromUTF8? ⟨text.toUTF8.data.toList.toArray⟩ = some text := by
    simp only [Array.toArray_toList, String.toUTF8, String.fromUTF8?, text.isValidUTF8, ↓reduceDIte]
    rfl
  rw [parseBytes?, htext]
  rfl

end Json

end BeaconSsz
