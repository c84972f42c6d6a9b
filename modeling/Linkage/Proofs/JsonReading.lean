import Linkage.Json.Printer
import Linkage.Json.Reader
import Mathlib.Tactic.IntervalCases

/-!
# What is written as JSON is read back

Nothing that is written runs on into what follows it: a quoted text ends at its quotation mark, and
a number at whatever is no part of one. So a reading that waits for a value takes just the value from
a text that opens with it, in any layout, and goes on behind it. `Data.Writable` says which values
are written in full, and `read?_chars` that these are read back.
-/

namespace Linkage.Json

variable {layout : Layout} {rest : List Char}

/-! ## Quoted texts -/

theorem hexValue?_digitChar {n : Nat} (small : n < 16) : hexValue? (Nat.digitChar n) = some n := by
  interval_cases n <;> rfl

theorem digits_four (code : Nat) :
    (Hex.digits 4 code).toList = [Nat.digitChar (code / 4096 % 16), Nat.digitChar (code / 256 % 16),
      Nat.digitChar (code / 16 % 16), Nat.digitChar (code % 16)] := by
  simp [Hex.digits, List.range_succ, Nat.shiftRight_eq_div_pow]

theorem quotedUnits?_code {code : Nat} (small : code < 0x10000) (before : List Unit16) :
    quotedUnits? before ('\\' :: 'u' :: ((Hex.digits 4 code).toList ++ rest)) =
      quotedUnits? (.ofCode code :: before) rest := by
  have value : hexValue4? (Nat.digitChar (code / 4096 % 16)) (Nat.digitChar (code / 256 % 16))
      (Nat.digitChar (code / 16 % 16)) (Nat.digitChar (code % 16)) = some code := by
    have digit (n : Nat) : hexValue? (Nat.digitChar (n % 16)) = some (n % 16) :=
      hexValue?_digitChar (Nat.mod_lt n (by decide))
    simp only [hexValue4?, digit, Option.bind_eq_bind, Option.bind_some, Option.pure_def,
      Option.some.injEq]
    omega
  rw [digits_four]
  simp only [List.cons_append, List.nil_append, quotedUnits?, value]

theorem quotedUnits?_escape (c : Char) (before : List Unit16) :
    quotedUnits? before (escape c ++ rest) = quotedUnits? (.whole c :: before) rest := by
  unfold escape
  split
  -- Without a short form, a control character is written as its code, and any other as it is.
  case h_8 noQuote noBackslash _ _ _ _ _ =>
    split
    case isTrue control =>
      rw [List.cons_append, List.cons_append, quotedUnits?_code (by omega)]
      rw [Unit16.ofCode, if_neg (by omega), Char.ofNat_toNat]
    case isFalse printed =>
      rw [List.cons_append, List.nil_append, quotedUnits?, if_neg printed]
      all_goals simp_all
  all_goals rfl

theorem quotedUnits?_escaped (text : List Char) (before : List Unit16) :
    quotedUnits? before (text.flatMap escape ++ '"' :: rest) =
      some (before.reverse ++ text.map .whole, rest) := by
  induction text generalizing before with
  | nil => simp [quotedUnits?]
  | cons c text ih =>
    rw [List.flatMap_cons, List.append_assoc, quotedUnits?_escape, ih]
    simp

theorem joinUnits?_whole (text before : List Char) :
    joinUnits? before (text.map .whole) = some (before.reverse ++ text) := by
  induction text generalizing before with
  | nil => simp [joinUnits?]
  | cons c text ih =>
    rw [List.map_cons, joinUnits?, ih]
    simp

theorem scalar?_quote (text : String) :
    scalar? (quote text ++ rest) = some (.text text, rest) := by
  have units : quotedUnits? [] (text.toList.flatMap escape ++ '"' :: rest) =
      some (text.toList.map .whole, rest) := quotedUnits?_escaped text.toList []
  have joined : joinUnits? [] (text.toList.map .whole) = some text.toList :=
    joinUnits?_whole text.toList []
  simp [quote, scalar?, quoted?, units, joined]

def EndsNumber (text : List Char) : Prop :=
  ∀ c ∈ text.head?, c.isDigit = false ∧ c ≠ '.' ∧ c ≠ 'e' ∧ c ≠ 'E'

theorem endsNumber_cons {c : Char} (other : c.isDigit = false ∧ c ≠ '.' ∧ c ≠ 'e' ∧ c ≠ 'E') :
    EndsNumber (c :: rest) := by
  rintro _ ⟨⟩
  exact other

theorem endsNumber_lineBreak (ends : EndsNumber rest) : EndsNumber (layout.lineBreak ++ rest) := by
  cases layout with
  | compact => exact ends
  | indented depth => exact endsNumber_cons (by decide)

theorem endsNumber_moreItems {items : List Data} (ends : EndsNumber rest) :
    EndsNumber (moreItems layout items ++ rest) := by
  cases items with
  | nil => exact ends
  | cons item items => exact endsNumber_cons (by decide)

theorem endsNumber_moreFields {fields : List (String × Data)} (ends : EndsNumber rest) :
    EndsNumber (moreFields layout fields ++ rest) := by
  cases fields with
  | nil => exact ends
  | cons field fields => exact endsNumber_cons (by decide)

theorem ofDigits_toDigits (n : Nat) : ofDigits (Nat.toDigits 10 n) = n := by
  have value := Nat.ofDigitChars_toDigits (b := 10) (n := n) (by decide) (by decide)
  unfold Nat.ofDigitChars at value
  simp only [Nat.mul_comm 10] at value
  exact value

theorem toDigits_ne_zero_cons {n : Nat} (positive : 0 < n) :
    Nat.toDigits 10 n ≠ '0' :: rest := by
  induction n using Nat.strongRecOn generalizing rest with
  | ind n ih =>
    rw [Nat.toDigits_eq_if (by decide)]
    split
    case isTrue =>
      intro opens
      have zero := Nat.digitChar_eq_zero.mp (List.cons.inj opens).1
      omega
    case isFalse large =>
      intro opens
      rcases List.append_eq_cons_iff.mp opens with ⟨none, -⟩ | ⟨_, opens, -⟩
      · exact Nat.toDigits_ne_nil none
      · exact ih (n / 10) (by omega) (by omega) opens

theorem digits?_append {digits : List Char} (some_digit : digits ≠ [])
    (each : ∀ c ∈ digits, c.isDigit = true) (ends : EndsNumber rest) :
    digits? (digits ++ rest) = some (digits, rest) := by
  have stops : rest.takeWhile Char.isDigit = [] ∧ rest.dropWhile Char.isDigit = rest := by
    cases rest with
    | nil => exact ⟨rfl, rfl⟩
    | cons c rest =>
      have other := (ends c rfl).1
      simp [other]
  have taken : (digits ++ rest).takeWhile Char.isDigit = digits := by
    rw [List.takeWhile_append_of_pos each, stops.1, List.append_nil]
  have left : (digits ++ rest).dropWhile Char.isDigit = rest := by
    rw [List.dropWhile_append_of_pos each, stops.2]
  unfold digits?
  rw [taken, left]
  cases digits with
  | nil => exact absurd rfl some_digit
  | cons => rfl

theorem isDigit_of_mem {n : Nat} {c : Char} (member : c ∈ Nat.toDigits 10 n) : c.isDigit = true :=
  Nat.isDigit_of_mem_toDigits (by decide) (by decide) member

theorem toDigits_eq_cons (n : Nat) :
    ∃ c digits, Nat.toDigits 10 n = c :: digits ∧ c.isDigit = true := by
  obtain ⟨c, digits, opens⟩ := List.exists_cons_of_ne_nil (Nat.toDigits_ne_nil (n := n) (b := 10))
  exact ⟨c, digits, opens, isDigit_of_mem (opens ▸ List.mem_cons_self)⟩

theorem wholePart?_toDigits (n : Nat) (ends : EndsNumber rest) :
    wholePart? (Nat.toDigits 10 n ++ rest) = some (Nat.toDigits 10 n, rest) := by
  cases n with
  | zero =>
    rw [Nat.toDigits_zero]
    cases rest with
    | nil => rfl
    | cons c rest =>
      have other := (ends c rfl).1
      simp [wholePart?, other]
  | succ n =>
    rw [← digits?_append Nat.toDigits_ne_nil (fun _ => isDigit_of_mem) ends]
    obtain ⟨c, digits, opens, -⟩ := toDigits_eq_cons (n + 1)
    rw [opens, List.cons_append, wholePart?]
    intro after zero
    cases zero
    exact toDigits_ne_zero_cons (Nat.succ_pos n) opens

theorem number?_toDigits {n : Nat} (small : n < UInt64.size) (ends : EndsNumber rest) :
    number? (Nat.toDigits 10 n ++ rest) = some (.natural n, rest) := by
  -- A digit is no sign, and what follows the digits is neither a point nor an exponent.
  have unsigned : minus (Nat.toDigits 10 n ++ rest) = ([], Nat.toDigits 10 n ++ rest) := by
    obtain ⟨c, digits, opens, digit⟩ := toDigits_eq_cons n
    rw [opens, List.cons_append, minus]
    rintro after sign
    cases sign
    cases digit
  have noFraction : fraction? rest = some ([], rest) := by
    cases rest with
    | nil => rfl
    | cons c rest =>
      rw [fraction?]
      intro after point
      cases point
      exact (ends '.' rfl).2.1 rfl
  have noExponent : exponent? rest = some ([], rest) := by
    cases rest with
    | nil => rfl
    | cons c rest =>
      obtain ⟨-, -, lower, upper⟩ := ends c rfl
      simp [exponent?, lower, upper]
  simp [number?, unsigned, wholePart?_toDigits n ends, noFraction, noExponent, ofDigits_toDigits,
    small]

theorem scalar?_natural {n : Nat} (small : n < UInt64.size) (ends : EndsNumber rest) :
    scalar? ((toString n).toList ++ rest) = some (.natural n, rest) := by
  have digits : (toString n).toList = Nat.toDigits 10 n := Nat.toList_repr
  have read := number?_toDigits small ends
  obtain ⟨c, more, opens, digit⟩ := toDigits_eq_cons n
  rw [digits]
  rw [opens, List.cons_append] at read ⊢
  have noWord : word? (c :: (more ++ rest)) = none := by
    unfold word?
    split
    case h_4 => rfl
    all_goals
      rename_i same
      cases (List.cons.inj same).1
      cases digit
  rw [scalar?, noWord, Option.none_or, read]
  intro after quoted
  cases quoted
  cases digit

/-! ## Taking a text -/

theorem opens_of_scalar? {c : Char} {text : List Char} {value : Data}
    (read : scalar? (c :: text) = some (value, rest)) :
    ¬ isSpace c = true ∧ Token.ofChar? c = none := by
  constructor
  · intro space
    simp only [isSpace, Bool.or_eq_true, decide_eq_true_eq] at space
    rcases space with ((rfl | rfl) | rfl) | rfl <;> cases read
  · unfold Token.ofChar?
    split
    case h_7 => rfl
    all_goals cases read

theorem tokensFrom?_scalar {text : List Char} {value : Data}
    (read : scalar? text = some (value, rest)) (before : List Token) :
    tokensFrom? before text = tokensFrom? (.scalar value :: before) rest := by
  cases text with
  | nil => cases read
  | cons c text =>
    obtain ⟨glyph, opens⟩ := opens_of_scalar? read
    rw [tokensFrom?, if_neg glyph, opens]
    dsimp only
    split
    case h_1 read' =>
      cases read.symm.trans read'
      rfl
    case h_2 read' => cases read.symm.trans read'

theorem tokensFrom?_append (before early : List Token) (text : List Char) :
    tokensFrom? (before ++ early) text = (tokensFrom? before text).map (early.reverse ++ ·) := by
  fun_induction tokensFrom? before text with
  | case1 before => simp [tokensFrom?]
  | case2 before c text space ih => rw [tokensFrom?, if_pos space, ih]
  | case3 before c text glyph token given ih =>
    rw [tokensFrom?, if_neg glyph, given]
    exact ih
  | case4 before c text glyph none value after read shorter ih =>
    rw [tokensFrom?_scalar read]
    exact ih
  | case5 before c text glyph none refused =>
    rw [tokensFrom?, if_neg glyph, none]
    dsimp only
    split
    case h_1 read => cases refused.symm.trans read
    case h_2 => rfl

namespace Reading

/-- Where a reading stands once it has taken a text, if all of it goes on from there. -/
def take (reading : Reading) (text : List Char) : Option Reading := (tokens? text).bind reading.run

variable {reading : Reading}

theorem take_nil : reading.take [] = some reading := by
  simp [take, tokens?, tokensFrom?, run]

theorem take_space {c : Char} (space : isSpace c = true) :
    reading.take (c :: rest) = reading.take rest := by
  rw [take, tokens?, tokensFrom?, if_pos space]
  rfl

theorem take_lineBreak (layout : Layout) :
    reading.take (layout.lineBreak ++ rest) = reading.take rest := by
  cases layout with
  | compact => rfl
  | indented depth =>
    rw [Layout.lineBreak, List.cons_append, take_space rfl]
    induction 2 * depth with
    | zero => rfl
    | succ width ih => rw [List.replicate_succ, List.cons_append, take_space rfl, ih]

theorem bind_run (token : Token) (text : List Char) :
    (tokensFrom? [token] text).bind reading.run =
      (reading.step token).bind fun next => next.take text := by
  have early := tokensFrom?_append [] [token] text
  rw [List.nil_append] at early
  rw [early]
  cases read : tokensFrom? [] text with
  | none => cases reading.step token <;> simp [take, tokens?, read]
  | some tokens => cases stepped : reading.step token <;> simp [take, tokens?, read, run, stepped]

theorem take_glyph {c : Char} {token : Token} (given : Token.ofChar? c = some token) :
    reading.take (c :: rest) = (reading.step token).bind fun next => next.take rest := by
  have glyph : ¬ isSpace c = true := by
    unfold Token.ofChar? at given
    split at given <;> first | decide | cases given
  rw [take, tokens?, tokensFrom?, if_neg glyph, given]
  exact bind_run token rest

theorem take_scalar {text : List Char} {value : Data} (read : scalar? text = some (value, rest)) :
    reading.take text = (reading.step (.scalar value)).bind fun next => next.take rest := by
  rw [take, tokens?, tokensFrom?_scalar read]
  exact bind_run (.scalar value) rest

/-! ## Taking a value -/

def AwaitsValue (reading : Reading) : Prop :=
  reading.awaiting = .value ∨ reading.awaiting = .firstItem

theorem AwaitsValue.step (awaits : reading.AwaitsValue) (token : Token)
    (opens : token ≠ .closeList) : reading.step token = reading.takeValue token := by
  unfold Reading.step
  rcases awaits with awaits | awaits <;> rw [awaits]
  cases token <;> first | rfl | exact absurd rfl opens

/-- Whether any reading that waits for a value takes this one from what is written of it. -/
def Takes (layout : Layout) (data : Data) : Prop :=
  ∀ (reading : Reading) (rest : List Char), reading.AwaitsValue → EndsNumber rest →
    reading.take (chars layout data ++ rest) =
      (reading.complete reading.stack data).bind fun next => next.take rest

theorem takes_scalar {data : Data}
    (read : ∀ {rest}, EndsNumber rest → scalar? (chars layout data ++ rest) = some (data, rest)) :
    Takes layout data := by
  intro reading rest awaits ends
  rw [take_scalar (read ends), awaits.step (.scalar data) nofun]
  rfl

theorem take_moreItems {items : List Data} (before : List Data) {outer : List Open}
    {names : List String} (each : ∀ item ∈ items, Takes layout item) (ends : EndsNumber rest) :
    take ⟨.separator, .list before :: outer, names, .null⟩ (moreItems layout items ++ rest) =
      take ⟨.separator, .list (items.reverse ++ before) :: outer, names, .null⟩ rest := by
  -- The items that have been taken stand in `before`, the last first.
  induction items generalizing before with
  | nil => rfl
  | cons item items ih =>
    have first := each item List.mem_cons_self
    have others := ih (item :: before) fun item' member =>
      each item' (List.mem_cons_of_mem _ member)
    simp only [moreItems, List.cons_append, List.append_assoc]
    rw [take_glyph rfl]
    simp only [step, Option.bind_some]
    rw [take_lineBreak, first _ _ (.inl rfl) (endsNumber_moreItems ends)]
    simp only [complete, Option.bind_some]
    rw [others]
    simp

theorem takes_list {items : List Data} (each : ∀ layout, ∀ item ∈ items, Takes layout item) :
    Takes layout (.list items) := by
  intro reading rest awaits ends
  cases items with
  | nil =>
    rw [chars, List.cons_append, take_glyph rfl, awaits.step .openList nofun]
    simp only [takeValue, Option.bind_some, List.cons_append]
    rw [take_glyph rfl]
    rfl
  | cons item items =>
    have first := each layout.deeper item List.mem_cons_self
    have others := fun item member => each layout.deeper item (List.mem_cons_of_mem _ member)
    have closes : EndsNumber (layout.lineBreak ++ ']' :: rest) :=
      endsNumber_lineBreak (endsNumber_cons (by decide))
    rw [chars, List.cons_append, take_glyph rfl, awaits.step .openList nofun]
    simp only [takeValue, Option.bind_some, List.append_assoc, List.cons_append, List.nil_append]
    rw [take_lineBreak, first _ _ (.inr rfl) (endsNumber_moreItems closes)]
    simp only [complete, Option.bind_some]
    rw [take_moreItems [item] others closes, take_lineBreak, take_glyph rfl]
    simp [step, endList, complete]

theorem take_fieldChars {field : String × Data} {awaiting : Awaiting} {result : Data}
    {before : List (String × Data)} {outer : List Open} {names : List String}
    (awaits : awaiting = .firstName ∨ awaiting = .name) (takes : Takes layout field.2)
    (ends : EndsNumber rest) :
    take ⟨awaiting, .table before none :: outer, names, result⟩ (fieldChars layout field ++ rest) =
      take ⟨.separator, .table (field :: before) none :: outer, names, .null⟩ rest := by
  obtain ⟨name, value⟩ := field
  have named : step ⟨awaiting, .table before none :: outer, names, result⟩ (.scalar (.text name)) =
      some ⟨.colon, .table before none :: outer, name :: names, result⟩ := by
    rcases awaits with rfl | rfl <;> rfl
  have colon (text : List Char) :
      take ⟨.colon, .table before none :: outer, name :: names, result⟩ (layout.colon ++ text) =
        take ⟨.value, .table before none :: outer, name :: names, result⟩ text := by
    cases layout with
    | compact =>
      rw [Layout.colon, List.cons_append, take_glyph rfl]
      rfl
    | indented depth =>
      rw [Layout.colon, List.cons_append, take_glyph rfl]
      exact take_space rfl
  rw [fieldChars, List.append_assoc, List.append_assoc, take_scalar (scalar?_quote name), named,
    Option.bind_some, colon, takes _ _ (.inl rfl) ends]
  rfl

theorem take_moreFields {fields : List (String × Data)} (before : List (String × Data))
    {outer : List Open} {names : List String} (each : ∀ field ∈ fields, Takes layout field.2)
    (ends : EndsNumber rest) :
    take ⟨.separator, .table before none :: outer, names, .null⟩
        (moreFields layout fields ++ rest) =
      take ⟨.separator, .table (fields.reverse ++ before) none :: outer, names, .null⟩ rest := by
  induction fields generalizing before with
  | nil => rfl
  | cons field fields ih =>
    have first := each field List.mem_cons_self
    have others := ih (field :: before) fun field' member =>
      each field' (List.mem_cons_of_mem _ member)
    simp only [moreFields, List.cons_append, List.append_assoc]
    rw [take_glyph rfl]
    simp only [step, Option.bind_some]
    rw [take_lineBreak, take_fieldChars (.inr rfl) first (endsNumber_moreFields ends), others]
    simp

theorem takes_table {fields : List (String × Data)}
    (each : ∀ layout, ∀ field ∈ fields, Takes layout field.2) : Takes layout (.table fields) := by
  intro reading rest awaits ends
  cases fields with
  | nil =>
    rw [chars, List.cons_append, take_glyph rfl, awaits.step .openTable nofun]
    simp only [takeValue, Option.bind_some, List.cons_append]
    rw [take_glyph rfl]
    rfl
  | cons field fields =>
    have first := each layout.deeper field List.mem_cons_self
    have others := fun field' member => each layout.deeper field' (List.mem_cons_of_mem _ member)
    have closes : EndsNumber (layout.lineBreak ++ '\x7d' :: rest) :=
      endsNumber_lineBreak (endsNumber_cons (by decide))
    rw [chars, List.cons_append, take_glyph rfl, awaits.step .openTable nofun]
    simp only [takeValue, Option.bind_some, List.append_assoc, List.cons_append, List.nil_append]
    rw [take_lineBreak, take_fieldChars (.inl rfl) first (endsNumber_moreFields closes),
      take_moreFields [field] others closes, take_lineBreak, take_glyph rfl]
    simp [step, endTable, complete]

end Reading

end Linkage.Json

namespace Linkage

open Json

/-! ## Values that are written in full -/

/-- A value that says in any layout what it is, with at most `depth` lists and tables nested. What
is kept as a document wrote it does not, and neither does a number that is too large. -/
inductive Data.Writable : (depth : Nat) → Data → Prop
  | null {depth : Nat} : Writable depth .null
  | bool {depth : Nat} (value : Bool) : Writable depth (.bool value)
  | natural {depth value : Nat} (small : value < UInt64.size) : Writable depth (.natural value)
  | text {depth : Nat} (value : String) : Writable depth (.text value)
  | list {depth : Nat} {items : List Data} (each : ∀ item ∈ items, Writable depth item) :
      Writable (depth + 1) (.list items)
  | table {depth : Nat} {fields : List (String × Data)}
      (each : ∀ field ∈ fields, Writable depth field.2) : Writable (depth + 1) (.table fields)

variable {depth : Nat} {data : Data}

theorem Data.Writable.takes (writable : data.Writable depth) (layout : Layout) :
    Reading.Takes layout data := by
  -- The layout is left general, since the items of a list are written further in than the list.
  induction writable generalizing layout with
  | null => exact Reading.takes_scalar fun _ => rfl
  | bool value => cases value <;> exact Reading.takes_scalar fun _ => rfl
  | natural small => exact Reading.takes_scalar fun ends => scalar?_natural small ends
  | text value => exact Reading.takes_scalar fun _ => scalar?_quote value
  | list _ ih => exact Reading.takes_list fun layout item member => ih item member layout
  | table _ ih => exact Reading.takes_table fun layout field member => ih field member layout

/-- What is written of a value in full is read back, in whatever layout. -/
theorem read?_chars (writable : data.Writable depth) (layout : Layout) :
    read? (String.ofList (chars layout data)) = some data := by
  have taken := writable.takes layout Reading.start [] (.inl rfl) nofun
  rw [List.append_nil, Reading.start, Reading.complete, Option.bind_some, Reading.take_nil] at taken
  obtain ⟨tokens, cut, ran⟩ := Option.bind_eq_some_iff.mp taken
  rw [read?, String.toList_ofList, cut]
  simp [Reading.start, ran]

namespace Data

theorem arePlain_eq_all (items : List Data) : arePlain depth items = items.all (isPlain depth) := by
  induction items with
  | nil => rfl
  | cons item items ih => rw [arePlain, ih, List.all_cons]

theorem fieldsArePlain_eq_all (fields : List (String × Data)) :
    fieldsArePlain depth fields = fields.all fun field => field.2.isPlain depth := by
  induction fields with
  | nil => rfl
  | cons field fields ih => rw [fieldsArePlain, fieldIsPlain, ih, List.all_cons]

theorem Writable.isPlain (writable : data.Writable depth) : data.isPlain depth = true := by
  induction writable with
  | null | bool | natural | text => rfl
  | list _ ih => simpa [Data.isPlain, arePlain_eq_all] using ih
  | table _ ih =>
    rw [Data.isPlain, fieldsArePlain_eq_all]
    simpa using fun name value member => ih (name, value) member

end Data

end Linkage
