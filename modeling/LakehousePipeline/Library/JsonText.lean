import LakehousePipeline.Library.Json

/-!
# Compact JSON text

A writer without blanks between the tokens and a reader of such texts, and that the reader inverts
the writer (`compact_lawful`). The reader does not know blanks or floats, and takes the fields of an
object as they stand.

## The writer

`write` follows the shape of a value; the items of an array and the fields of an object are written
by functions of their own, one for the first and one for each further, so that no function has to
know whether it is at a comma. Strings escape the quotation mark, the backslash and the control
characters, with the short forms where JSON has them; every other character stands for itself.

## The reader

Reading is by fuel, one unit for each nested value or further item; the length of the text is
enough, as each of them is at least one character long. Every reading function returns what follows
the part it has read, and is specified *in front of any text*: `readString_writeString`,
`readInt_writeInt` and `readValue_write` all say that the reader gives back the value and the rest
of the text, whatever that is. Only a number needs to know something of the rest, that it does not
go on with a digit (`EndsNumber`), and inside a value a comma or a closing bracket comes next.

The round trip is then a mutual induction over the five writing functions, one lemma for each.

## Characters

`compact_keepsCharacters` bounds the characters of a text by those of its strings and the signs of
the syntax, provided the strings are printed as they are. This is what a text needs that is put in
a literal of another language.
-/

namespace Json

/-! ### Strings -/

/-- The quotation mark. -/
def quote : Char := '\x22'

/-- The backslash. -/
def backslash : Char := '\x5c'

/-- The last four bits of a number, as a digit. -/
def hexDigit (n : ℕ) : Char :=
  Nat.digitChar (n % 16)

/-- A character of a string. -/
def writeChar (c : Char) : List Char :=
  if c = quote ∨ c = backslash then [backslash, c]
  else if c = '\n' then [backslash, 'n']
  else if c = '\r' then [backslash, 'r']
  else if c = '\t' then [backslash, 't']
  else if c.toNat < 32 then [backslash, 'u', '0', '0', hexDigit (c.toNat / 16), hexDigit c.toNat]
  else [c]

/-- A string. -/
def writeString (text : List Char) : List Char :=
  quote :: text.flatMap writeChar ++ [quote]

/-- The value of a digit. -/
def hexValue (c : Char) : ℕ :=
  if c.isDigit then c.toNat - 48 else c.toNat - 87

/-- The character a backslash and another stand for. -/
def unescape (c : Char) : Option Char :=
  if c = quote ∨ c = backslash ∨ c = '/' then some c
  else if c = 'n' then some '\n'
  else if c = 'r' then some '\r'
  else if c = 't' then some '\t'
  else none

/-- A string after its first quotation mark, and what follows it. -/
def readString : List Char → Option (List Char × List Char)
  | [] => none
  | c :: rest =>
    if c = quote then some ([], rest)
    else if c = backslash then
      match rest with
      | 'u' :: h₁ :: h₂ :: h₃ :: h₄ :: rest => do
        let code := ((hexValue h₁ * 16 + hexValue h₂) * 16 + hexValue h₃) * 16 + hexValue h₄
        let (text, rest) ← readString rest
        return (Char.ofNat code :: text, rest)
      | e :: rest => do
        let c ← unescape e
        let (text, rest) ← readString rest
        return (c :: text, rest)
      | [] => none
    else do
      let (text, rest) ← readString rest
      return (c :: text, rest)

/-- Reading a digit that was written gives its last four bits. -/
theorem hexValue_hexDigit (n : ℕ) : hexValue (hexDigit n) = n % 16 := by
  have hall : ∀ d < 16, hexValue (Nat.digitChar d) = d := by decide
  exact hall (n % 16) (Nat.mod_lt n (by decide))

/-- An escaped character is read. -/
theorem readString_escape {c e : Char} (hu : e ≠ 'u') (hescape : unescape e = some c)
    {text rest after : List Char} (h : readString rest = some (text, after)) :
    readString (backslash :: e :: rest) = some (c :: text, after) := by
  have hback : backslash ≠ quote := by decide
  rw [readString, if_neg hback, if_pos rfl, hescape]
  · simp [h]
  · exact fun h₁ h₂ h₃ h₄ rest' heu ↦ absurd heu hu

/-- A character that is written is read, in front of any text. -/
theorem readString_writeChar (c : Char) {text rest after : List Char}
    (h : readString rest = some (text, after)) :
    readString (writeChar c ++ rest) = some (c :: text, after) := by
  unfold writeChar
  split_ifs with hself hn hr ht hcontrol
  · have hescape : unescape c = some c := by
      rw [unescape, if_pos (hself.imp_right Or.inl)]
    have hu : c ≠ 'u' := by rcases hself with rfl | rfl <;> decide
    exact readString_escape hu hescape h
  · exact readString_escape (by decide) (by rw [hn]; decide) h
  · exact readString_escape (by decide) (by rw [hr]; decide) h
  · exact readString_escape (by decide) (by rw [ht]; decide) h
  · have hback : backslash ≠ quote := by decide
    have hzero : hexValue '0' = 0 := by decide
    have hcode : c.toNat / 16 % 16 * 16 + c.toNat % 16 = c.toNat := by omega
    simp only [List.cons_append, List.nil_append]
    rw [readString, if_neg hback, if_pos rfl]
    simp [h, hzero, hexValue_hexDigit, hcode]
  · obtain ⟨hquote, hback⟩ := not_or.1 hself
    rw [List.singleton_append, readString.eq_def]
    simp [hquote, hback, h]

/-- A string that is written is read, in front of any text. -/
theorem readString_writeString (text rest : List Char) :
    readString (text.flatMap writeChar ++ quote :: rest) = some (text, rest) := by
  induction text with
  | nil =>
    rw [List.flatMap_nil, List.nil_append, readString.eq_def]
    simp
  | cons c text ih =>
    rw [List.flatMap_cons, List.append_assoc]
    exact readString_writeChar c ih

/-! ### Numbers -/

/-- The number at the start of a text, and what follows it. -/
def readNat (text : List Char) : Option (ℕ × List Char) :=
  match text.takeWhile Char.isDigit with
  | [] => none
  | digits => some (Nat.ofDigitChars 10 digits 0, text.dropWhile Char.isDigit)

/-- The text does not go on with a digit. -/
def EndsNumber (rest : List Char) : Prop :=
  ∀ c ∈ rest.head?, c.isDigit = false

/-- A natural number that is written is read, in front of a text that does not go on with a digit.
-/
theorem readNat_toDigits (n : ℕ) {rest : List Char} (h : EndsNumber rest) :
    readNat (Nat.toDigits 10 n ++ rest) = some (n, rest) := by
  have hdigits : ∀ c ∈ Nat.toDigits 10 n, c.isDigit = true := fun c hc ↦
    Nat.isDigit_of_mem_toDigits (by decide) (by decide) hc
  have hrest : rest.takeWhile Char.isDigit = [] ∧ rest.dropWhile Char.isDigit = rest := by
    cases rest with
    | nil => exact ⟨rfl, rfl⟩
    | cons c rest => simp [h c rfl]
  rw [readNat, List.takeWhile_append_of_pos hdigits, List.dropWhile_append_of_pos hdigits, hrest.1,
    hrest.2, List.append_nil]
  split
  · rename_i hnil
    exact absurd hnil Nat.toDigits_ne_nil
  · rw [Nat.ofDigitChars_ten_toDigits]

/-- An integer. -/
def writeInt (n : ℤ) : List Char :=
  if n < 0 then '-' :: Nat.toDigits 10 n.natAbs else Nat.toDigits 10 n.natAbs

/-- The integer at the start of a text, and what follows it. -/
def readInt : List Char → Option (ℤ × List Char)
  | '-' :: rest => (readNat rest).map fun n ↦ (-n.1, n.2)
  | rest => (readNat rest).map fun n ↦ (n.1, n.2)

/-- An integer begins with a digit or its sign. -/
theorem exists_writeInt_eq_cons (n : ℤ) :
    ∃ c rest, writeInt n = c :: rest ∧ (c = '-' ∨ c.isDigit = true) := by
  unfold writeInt
  split_ifs
  · exact ⟨_, _, rfl, Or.inl rfl⟩
  · obtain ⟨c, digits, hdigits⟩ := List.exists_cons_of_ne_nil
      (Nat.toDigits_ne_nil (n := n.natAbs) (b := 10))
    refine ⟨c, digits, hdigits, Or.inr ?_⟩
    exact Nat.isDigit_of_mem_toDigits (b := 10) (n := n.natAbs) (by decide) (by decide)
      (hdigits ▸ List.mem_cons_self)

/-- An integer that is written is read, in front of a text that does not go on with a digit. The
sign is looked at first, and no digit is a sign. -/
theorem readInt_writeInt (n : ℤ) {rest : List Char} (h : EndsNumber rest) :
    readInt (writeInt n ++ rest) = some (n, rest) := by
  unfold writeInt
  split_ifs with hneg
  · simp only [List.cons_append, readInt, readNat_toDigits _ h, Option.map_some]
    congr 2
    omega
  · have hminus : ∀ text, Nat.toDigits 10 n.natAbs ++ rest ≠ '-' :: text := by
      intro text heq
      obtain ⟨c, digits, hdigits⟩ := List.exists_cons_of_ne_nil
        (Nat.toDigits_ne_nil (n := n.natAbs) (b := 10))
      have hc := Nat.isDigit_of_mem_toDigits (b := 10) (n := n.natAbs) (by decide) (by decide)
        (hdigits ▸ List.mem_cons_self)
      rw [hdigits, List.cons_append] at heq
      obtain rfl := (List.cons.inj heq).1
      exact absurd hc (by decide)
    rw [readInt, readNat_toDigits _ h, Option.map_some]
    · congr 2
      omega
    · exact hminus

/-! ### Values -/

mutual

/-- The text of a value. -/
def write : Json → List Char
  | .null => ['n', 'u', 'l', 'l']
  | .bool true => ['t', 'r', 'u', 'e']
  | .bool false => ['f', 'a', 'l', 's', 'e']
  | .int n => writeInt n
  | .float literal => literal
  | .string text => writeString text
  | .array items => '[' :: writeItems items
  | .object fields => '\x7b' :: writeFields fields

/-- The items of an array and its end. -/
def writeItems : List Json → List Char
  | [] => [']']
  | v :: items => write v ++ writeMoreItems items

/-- Further items of an array and its end. -/
def writeMoreItems : List Json → List Char
  | [] => [']']
  | v :: items => ',' :: (write v ++ writeMoreItems items)

/-- The fields of an object and its end. -/
def writeFields : List (List Char × Json) → List Char
  | [] => ['\x7d']
  | (key, v) :: fields => writeString key ++ ':' :: (write v ++ writeMoreFields fields)

/-- Further fields of an object and its end. -/
def writeMoreFields : List (List Char × Json) → List Char
  | [] => ['\x7d']
  | (key, v) :: fields => ',' :: (writeString key ++ ':' :: (write v ++ writeMoreFields fields))

end

/-- What follows a word at the start of a text. -/
def readWord (word text : List Char) : Option (List Char) :=
  if word.isPrefixOf text then some (text.drop word.length) else none

/-- A key and its colon. -/
def readKey : List Char → Option (List Char × List Char)
  | [] => none
  | c :: rest =>
    if c = quote then
      match readString rest with
      | some (key, ':' :: rest) => some (key, rest)
      | _ => none
    else none

mutual

/-- The value at the start of a text, and what follows it. -/
def readValue : ℕ → List Char → Option (Json × List Char)
  | 0, _ => none
  | _ + 1, [] => none
  | fuel + 1, c :: rest =>
    if c = quote then (readString rest).map fun s ↦ (.string s.1, s.2)
    else if c = '[' then (readItems fuel rest).map fun s ↦ (.array s.1, s.2)
    else if c = '\x7b' then (readFields fuel rest).map fun s ↦ (.object s.1, s.2)
    else if c = 'n' then (readWord ['u', 'l', 'l'] rest).map fun r ↦ (.null, r)
    else if c = 't' then (readWord ['r', 'u', 'e'] rest).map fun r ↦ (.bool true, r)
    else if c = 'f' then (readWord ['a', 'l', 's', 'e'] rest).map fun r ↦ (.bool false, r)
    else (readInt (c :: rest)).map fun n ↦ (.int n.1, n.2)

/-- The items of an array, up to its end. -/
def readItems : ℕ → List Char → Option (List Json × List Char)
  | 0, _ => none
  | fuel + 1, text =>
    if text.head? = some ']' then some ([], text.tail)
    else do
      let (v, rest) ← readValue fuel text
      let (items, rest) ← readMoreItems fuel rest
      return (v :: items, rest)

/-- Further items of an array, up to its end. -/
def readMoreItems : ℕ → List Char → Option (List Json × List Char)
  | 0, _ => none
  | fuel + 1, text =>
    if text.head? = some ']' then some ([], text.tail)
    else if text.head? = some ',' then do
      let (v, rest) ← readValue fuel text.tail
      let (items, rest) ← readMoreItems fuel rest
      return (v :: items, rest)
    else none

/-- The fields of an object, up to its end. -/
def readFields : ℕ → List Char → Option (List (List Char × Json) × List Char)
  | 0, _ => none
  | fuel + 1, text =>
    if text.head? = some '\x7d' then some ([], text.tail)
    else do
      let (key, rest) ← readKey text
      let (v, rest) ← readValue fuel rest
      let (fields, rest) ← readMoreFields fuel rest
      return ((key, v) :: fields, rest)

/-- Further fields of an object, up to its end. -/
def readMoreFields : ℕ → List Char → Option (List (List Char × Json) × List Char)
  | 0, _ => none
  | fuel + 1, text =>
    if text.head? = some '\x7d' then some ([], text.tail)
    else if text.head? = some ',' then do
      let (key, rest) ← readKey text.tail
      let (v, rest) ← readValue fuel rest
      let (fields, rest) ← readMoreFields fuel rest
      return ((key, v) :: fields, rest)
    else none

end

/-- The compact codec. -/
def compact : Codec where
  dumps := write
  loads text :=
    match readValue (text.length + 1) text with
    | some (v, []) => some v
    | _ => none

/-! ### The round trip -/

/-- A key and its colon are read, in front of any text. -/
theorem readKey_writeString (key rest : List Char) :
    readKey (writeString key ++ ':' :: rest) = some (key, rest) := by
  rw [writeString, List.cons_append, List.cons_append, List.append_assoc, readKey, if_pos rfl]
  simp only [List.singleton_append, readString_writeString]

/-- A value begins with a character, and not with the end of an array. -/
theorem exists_write_eq_cons {v : Json} (h : v.Plain) :
    ∃ c rest, write v = c :: rest ∧ c ≠ ']' := by
  cases v with
  | null => exact ⟨_, _, by rw [write], by decide⟩
  | bool b => cases b <;> exact ⟨_, _, by rw [write], by decide⟩
  | int n =>
    obtain ⟨c, rest, hwrite, hc⟩ := exists_writeInt_eq_cons n
    refine ⟨c, rest, by rw [write, hwrite], ?_⟩
    rintro rfl
    exact absurd hc (by decide)
  | float _ => simp [Plain] at h
  | string text => exact ⟨_, _, by rw [write, writeString, List.cons_append], by decide⟩
  | array items => exact ⟨_, _, by rw [write], by decide⟩
  | object fields => exact ⟨_, _, by rw [write], by decide⟩

/-- After an item comes a comma or the end of the array. -/
theorem endsNumber_writeMoreItems (items : List Json) (rest : List Char) :
    EndsNumber (writeMoreItems items ++ rest) := by
  cases items <;> simp [writeMoreItems, EndsNumber]

/-- After a field comes a comma or the end of the object. -/
theorem endsNumber_writeMoreFields (fields : List (List Char × Json)) (rest : List Char) :
    EndsNumber (writeMoreFields fields ++ rest) := by
  cases fields <;> simp [writeMoreFields, EndsNumber]

mutual

/-- A value that is written is read, in front of any text that does not go on with a digit. -/
theorem readValue_write : ∀ (v : Json) (fuel : ℕ) (rest : List Char), v.Plain →
    (write v).length ≤ fuel → EndsNumber rest → readValue fuel (write v ++ rest) = some (v, rest)
  | v, 0, rest, hv, hfuel, _ => by
    obtain ⟨c, text, hwrite, -⟩ := exists_write_eq_cons hv
    rw [hwrite] at hfuel
    cases hfuel
  | .null, fuel + 1, rest, _, _, _ => by
    simp [write, readValue, readWord, quote]
  | .bool true, fuel + 1, rest, _, _, _ => by
    simp [write, readValue, readWord, quote]
  | .bool false, fuel + 1, rest, _, _, _ => by
    simp [write, readValue, readWord, quote]
  | .int n, fuel + 1, rest, _, _, hrest => by
    obtain ⟨c, text, hwrite, hc⟩ := exists_writeInt_eq_cons n
    have hne : ∀ d : Char, d ≠ '-' → d.isDigit = false → c ≠ d := by
      rintro d hminus hdigit rfl
      simp_all
    have hread := readInt_writeInt n hrest
    rw [hwrite] at hread
    rw [write, hwrite, List.cons_append, readValue, if_neg (hne _ (by decide) (by decide)),
      if_neg (hne _ (by decide) (by decide)), if_neg (hne _ (by decide) (by decide)),
      if_neg (hne _ (by decide) (by decide)), if_neg (hne _ (by decide) (by decide)),
      if_neg (hne _ (by decide) (by decide)), ← List.cons_append, hread]
    rfl
  | .float _, _ + 1, _, hv, _, _ => by simp [Plain] at hv
  | .string text, fuel + 1, rest, _, _, _ => by
    rw [write, writeString, List.cons_append, List.cons_append, List.append_assoc, readValue,
      if_pos rfl, List.singleton_append, readString_writeString]
    rfl
  | .array items, fuel + 1, rest, hv, hfuel, _ => by
    rw [Plain] at hv
    rw [write] at hfuel ⊢
    have hitems := readItems_writeItems items fuel rest hv (Nat.le_of_succ_le_succ hfuel)
    simp [readValue, hitems, quote]
  | .object fields, fuel + 1, rest, hv, hfuel, _ => by
    rw [Plain] at hv
    rw [write] at hfuel ⊢
    have hfields := readFields_writeFields fields fuel rest hv.2 (Nat.le_of_succ_le_succ hfuel)
    simp [readValue, hfields, quote]

theorem readItems_writeItems : ∀ (items : List Json) (fuel : ℕ) (rest : List Char),
    (∀ v ∈ items, v.Plain) → (writeItems items).length ≤ fuel →
      readItems fuel (writeItems items ++ rest) = some (items, rest)
  | [], 0, _, _, hfuel => nomatch hfuel
  | [], fuel + 1, rest, _, _ => by simp [writeItems, readItems]
  | v :: items, fuel, rest, hplain, hfuel => by
    obtain ⟨hv, hitems⟩ := List.forall_mem_cons.1 hplain
    obtain ⟨c, text, hwrite, hc⟩ := exists_write_eq_cons hv
    rw [writeItems, List.length_append] at hfuel
    have hpos : 0 < (write v).length := by simp [hwrite]
    have hmorePos : 0 < (writeMoreItems items).length := by
      cases items <;> simp [writeMoreItems]
    obtain ⟨fuel, rfl⟩ : ∃ k, fuel = k + 1 := ⟨fuel - 1, by omega⟩
    have hvalue := readValue_write v fuel (writeMoreItems items ++ rest) hv (by omega)
      (endsNumber_writeMoreItems items rest)
    have hmore := readMoreItems_writeMoreItems items fuel rest hitems (by omega)
    have hhead : (write v ++ (writeMoreItems items ++ rest)).head? ≠ some ']' := by
      rw [hwrite]
      exact fun h ↦ hc (Option.some.inj h)
    rw [writeItems, List.append_assoc, readItems, if_neg hhead, hvalue]
    simp [hmore]

theorem readMoreItems_writeMoreItems : ∀ (items : List Json) (fuel : ℕ) (rest : List Char),
    (∀ v ∈ items, v.Plain) → (writeMoreItems items).length ≤ fuel →
      readMoreItems fuel (writeMoreItems items ++ rest) = some (items, rest)
  | [], 0, _, _, hfuel => nomatch hfuel
  | [], fuel + 1, rest, _, _ => by simp [writeMoreItems, readMoreItems]
  | _ :: _, 0, _, _, hfuel => nomatch hfuel
  | v :: items, fuel + 1, rest, hplain, hfuel => by
    obtain ⟨hv, hitems⟩ := List.forall_mem_cons.1 hplain
    rw [writeMoreItems, List.length_cons, List.length_append] at hfuel
    have hvalue := readValue_write v fuel (writeMoreItems items ++ rest) hv (by omega)
      (endsNumber_writeMoreItems items rest)
    have hmore := readMoreItems_writeMoreItems items fuel rest hitems (by omega)
    simp [writeMoreItems, readMoreItems, hvalue, hmore]

theorem readFields_writeFields : ∀ (fields : List (List Char × Json)) (fuel : ℕ)
    (rest : List Char), (∀ f ∈ fields, f.2.Plain) → (writeFields fields).length ≤ fuel →
      readFields fuel (writeFields fields ++ rest) = some (fields, rest)
  | [], 0, _, _, hfuel => nomatch hfuel
  | [], fuel + 1, rest, _, _ => by simp [writeFields, readFields]
  | (key, v) :: fields, fuel, rest, hplain, hfuel => by
    obtain ⟨hv, hfields⟩ := List.forall_mem_cons.1 hplain
    rw [writeFields, List.length_append, List.length_cons, List.length_append] at hfuel
    obtain ⟨fuel, rfl⟩ : ∃ k, fuel = k + 1 := ⟨fuel - 1, by omega⟩
    have hkey := readKey_writeString key (write v ++ (writeMoreFields fields ++ rest))
    have hkeyPos : 0 < (writeString key).length := by simp [writeString]
    have hvalue := readValue_write v fuel (writeMoreFields fields ++ rest) hv (by omega)
      (endsNumber_writeMoreFields fields rest)
    have hmore := readMoreFields_writeMoreFields fields fuel rest hfields (by omega)
    have hhead : (writeString key ++ ':' :: (write v ++ (writeMoreFields fields ++ rest))).head? ≠
        some '\x7d' := by
      simp [writeString, quote]
    rw [writeFields, List.append_assoc, List.cons_append, List.append_assoc, readFields,
      if_neg hhead, hkey]
    simp [hvalue, hmore]

theorem readMoreFields_writeMoreFields : ∀ (fields : List (List Char × Json)) (fuel : ℕ)
    (rest : List Char), (∀ f ∈ fields, f.2.Plain) → (writeMoreFields fields).length ≤ fuel →
      readMoreFields fuel (writeMoreFields fields ++ rest) = some (fields, rest)
  | [], 0, _, _, hfuel => nomatch hfuel
  | [], fuel + 1, rest, _, _ => by simp [writeMoreFields, readMoreFields]
  | _ :: _, 0, _, _, hfuel => nomatch hfuel
  | (key, v) :: fields, fuel + 1, rest, hplain, hfuel => by
    obtain ⟨hv, hfields⟩ := List.forall_mem_cons.1 hplain
    rw [writeMoreFields, List.length_cons, List.length_append, List.length_cons,
      List.length_append] at hfuel
    have hkey := readKey_writeString key (write v ++ (writeMoreFields fields ++ rest))
    have hvalue := readValue_write v fuel (writeMoreFields fields ++ rest) hv (by omega)
      (endsNumber_writeMoreFields fields rest)
    have hmore := readMoreFields_writeMoreFields fields fuel rest hfields (by omega)
    simp [writeMoreFields, readMoreFields, hkey, hvalue, hmore]

end

/-- The reader of compact text inverts the writer. -/
theorem compact_lawful : compact.Lawful := by
  intro v hv
  have hread := readValue_write v ((write v).length + 1) [] hv (Nat.le_succ _) nofun
  rw [List.append_nil] at hread
  simp only [compact, hread]

/-! ### The characters of a text -/

section Characters

variable {P : Char → Prop}

/-- What holds of the quotation mark and of the characters of a text holds of its string, if each of
them is written as it is. -/
theorem forall_mem_writeString (hquote : P quote) {text : List Char}
    (h : ∀ c ∈ text, P c ∧ Printed c) : ∀ c ∈ writeString text, P c := by
  intro c hc
  simp only [writeString, List.cons_append, List.mem_cons, List.mem_append, List.mem_flatMap,
    List.not_mem_nil, or_false] at hc
  obtain rfl | ⟨d, hd, hc⟩ | rfl := hc
  · exact hquote
  · obtain ⟨hP, hlow, -, hnotQuote, hnotBack⟩ := h d hd
    -- No escape of a printed character.
    have hwrite : writeChar d = [d] := by
      have hn : d ≠ '\n' := fun heq ↦ absurd hlow (by rw [heq]; decide)
      have hr : d ≠ '\r' := fun heq ↦ absurd hlow (by rw [heq]; decide)
      have ht : d ≠ '\t' := fun heq ↦ absurd hlow (by rw [heq]; decide)
      have hself : ¬(d = quote ∨ d = backslash) := not_or.2 ⟨hnotQuote, hnotBack⟩
      rw [writeChar, if_neg hself, if_neg hn, if_neg hr, if_neg ht, if_neg (Nat.not_lt.2 hlow)]
    rw [hwrite, List.mem_singleton] at hc
    exact hc ▸ hP
  · exact hquote

/-- An integer is made of digits and a sign. -/
theorem forall_mem_writeInt (hsigns : ∀ c ∈ syntaxCharacters, P c) (n : ℤ) :
    ∀ c ∈ writeInt n, P c := by
  have hdigits : ∀ c ∈ Nat.toDigits 10 n.natAbs, P c := by
    intro c hc
    have hdigit := Nat.isDigit_of_mem_toDigits (by decide) (by decide) hc
    refine hsigns c ?_
    simp only [Char.isDigit, Bool.and_eq_true, decide_eq_true_eq] at hdigit
    have hcode : c.toNat < 58 ∧ 48 ≤ c.toNat := ⟨Nat.lt_succ_of_le hdigit.2, hdigit.1⟩
    have hall : ∀ k < 58, 48 ≤ k → Char.ofNat k ∈ syntaxCharacters := by decide
    rw [← Char.ofNat_toNat c]
    exact hall _ hcode.1 hcode.2
  unfold writeInt
  split_ifs
  · exact List.forall_mem_cons.2 ⟨hsigns _ (by decide), hdigits⟩
  · exact hdigits

variable (hsigns : ∀ c ∈ syntaxCharacters, P c)

include hsigns

mutual

theorem forall_mem_write : ∀ v : Json, v.Plain → v.TextsAll (fun c ↦ P c ∧ Printed c) →
    ∀ c ∈ write v, P c
  | .null, _, _ => by
    rw [write]
    exact fun c hc ↦ hsigns c (List.all_iff_forall_prop.1 (by decide) c hc)
  | .bool true, _, _ => by
    rw [write]
    exact fun c hc ↦ hsigns c (List.all_iff_forall_prop.1 (by decide) c hc)
  | .bool false, _, _ => by
    rw [write]
    exact fun c hc ↦ hsigns c (List.all_iff_forall_prop.1 (by decide) c hc)
  | .int n, _, _ => by
    rw [write]
    exact forall_mem_writeInt hsigns n
  | .float _, hplain, _ => by simp [Plain] at hplain
  | .string text, _, htexts => by
    rw [TextsAll] at htexts
    rw [write]
    exact forall_mem_writeString (hsigns _ (by decide)) htexts
  | .array items, hplain, htexts => by
    rw [Plain] at hplain
    rw [TextsAll] at htexts
    rw [write]
    exact List.forall_mem_cons.2 ⟨hsigns _ (by decide),
      forall_mem_writeItems items hplain htexts⟩
  | .object fields, hplain, htexts => by
    rw [Plain] at hplain
    rw [TextsAll] at htexts
    rw [write]
    exact List.forall_mem_cons.2 ⟨hsigns _ (by decide),
      forall_mem_writeFields fields hplain.2 htexts⟩

theorem forall_mem_writeItems : ∀ items : List Json, (∀ v ∈ items, v.Plain) →
    (∀ v ∈ items, v.TextsAll fun c ↦ P c ∧ Printed c) → ∀ c ∈ writeItems items, P c
  | [], _, _ => by
    rw [writeItems]
    exact List.forall_mem_singleton.2 (hsigns _ (by decide))
  | v :: items, hplain, htexts => by
    obtain ⟨hv, hitems⟩ := List.forall_mem_cons.1 hplain
    obtain ⟨htext, htexts⟩ := List.forall_mem_cons.1 htexts
    rw [writeItems]
    exact List.forall_mem_append.2 ⟨forall_mem_write v hv htext,
      forall_mem_writeMoreItems items hitems htexts⟩

theorem forall_mem_writeMoreItems : ∀ items : List Json, (∀ v ∈ items, v.Plain) →
    (∀ v ∈ items, v.TextsAll fun c ↦ P c ∧ Printed c) → ∀ c ∈ writeMoreItems items, P c
  | [], _, _ => by
    rw [writeMoreItems]
    exact List.forall_mem_singleton.2 (hsigns _ (by decide))
  | v :: items, hplain, htexts => by
    obtain ⟨hv, hitems⟩ := List.forall_mem_cons.1 hplain
    obtain ⟨htext, htexts⟩ := List.forall_mem_cons.1 htexts
    rw [writeMoreItems]
    exact List.forall_mem_cons.2 ⟨hsigns _ (by decide), List.forall_mem_append.2
      ⟨forall_mem_write v hv htext, forall_mem_writeMoreItems items hitems htexts⟩⟩

theorem forall_mem_writeFields : ∀ fields : List (List Char × Json),
    (∀ f ∈ fields, f.2.Plain) →
    (∀ f ∈ fields, (∀ c ∈ f.1, P c ∧ Printed c) ∧ f.2.TextsAll fun c ↦ P c ∧ Printed c) →
      ∀ c ∈ writeFields fields, P c
  | [], _, _ => by
    rw [writeFields]
    exact List.forall_mem_singleton.2 (hsigns _ (by decide))
  | (key, v) :: fields, hplain, htexts => by
    obtain ⟨hv, hfields⟩ := List.forall_mem_cons.1 hplain
    obtain ⟨⟨hkey, htext⟩, htexts⟩ := List.forall_mem_cons.1 htexts
    rw [writeFields]
    exact List.forall_mem_append.2 ⟨forall_mem_writeString (hsigns _ (by decide)) hkey,
      List.forall_mem_cons.2 ⟨hsigns _ (by decide), List.forall_mem_append.2
        ⟨forall_mem_write v hv htext, forall_mem_writeMoreFields fields hfields htexts⟩⟩⟩

theorem forall_mem_writeMoreFields : ∀ fields : List (List Char × Json),
    (∀ f ∈ fields, f.2.Plain) →
    (∀ f ∈ fields, (∀ c ∈ f.1, P c ∧ Printed c) ∧ f.2.TextsAll fun c ↦ P c ∧ Printed c) →
      ∀ c ∈ writeMoreFields fields, P c
  | [], _, _ => by
    rw [writeMoreFields]
    exact List.forall_mem_singleton.2 (hsigns _ (by decide))
  | (key, v) :: fields, hplain, htexts => by
    obtain ⟨hv, hfields⟩ := List.forall_mem_cons.1 hplain
    obtain ⟨⟨hkey, htext⟩, htexts⟩ := List.forall_mem_cons.1 htexts
    rw [writeMoreFields]
    exact List.forall_mem_cons.2 ⟨hsigns _ (by decide), List.forall_mem_append.2
      ⟨forall_mem_writeString (hsigns _ (by decide)) hkey,
        List.forall_mem_cons.2 ⟨hsigns _ (by decide), List.forall_mem_append.2
          ⟨forall_mem_write v hv htext, forall_mem_writeMoreFields fields hfields htexts⟩⟩⟩⟩

end

end Characters

/-- The compact writer keeps the characters of its strings. -/
theorem compact_keepsCharacters : compact.KeepsCharacters :=
  fun _ v hsigns hplain htexts ↦ forall_mem_write hsigns v hplain htexts

end Json
