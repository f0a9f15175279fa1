import BrowserFlow.Proofs.Json.Lines
import BrowserFlow.Proofs.Text.Splitting
import BrowserFlow.Proofs.Value.Ordered

/-!
Written values are read back, from one line as from several. What stands around
the parts of a container and in front of a value is blank, whatever the spacing
is (`Json.Spacing`), and white space in front of a value does not matter, so each
part of a container is read where it stands, up to the mark behind it
(`Json.Spacing.readValue?_write`, by induction on the value, with as much fuel as
the value has parts). What is written is at least as long as the value has parts,
so that the whole text is read as what JSON keeps of the value (`Value.kept`):
`Json.read?_write` on one line, `Json.read?_writeIndented` over several. What is
written is well-formed (`Json.Spacing.wellFormed_write`).
-/

set_option autoImplicit false
set_option relaxedAutoImplicit false

namespace BrowserFlow

namespace Value

/-! ### The number of parts -/

mutual

/-- The number of parts of a value: itself, and for each item or entry a place and its parts. -/
def weight : Value → Nat
  | .sequence items => 1 + weightOfItems items
  | .mapping entries => 1 + weightOfEntries entries
  | _ => 1

/-- The number of parts of items. -/
def weightOfItems : List Value → Nat
  | [] => 0
  | item :: rest => 1 + weight item + weightOfItems rest

/-- The number of parts of entries. -/
def weightOfEntries : List (Text × Value) → Nat
  | [] => 0
  | (_, value) :: rest => 1 + weight value + weightOfEntries rest

end

theorem weight_pos (value : Value) : 0 < value.weight := by
  cases value <;> simp [weight]

/-! ### What JSON keeps -/

mutual

/-- What JSON keeps of a value: null for a number that is not finite, and every zero without its
sign. -/
def kept : Value → Value
  | .number x => if x.isFinite then .number x.plain else .null
  | .sequence items => .sequence (keptItems items)
  | .mapping entries => .mapping (keptEntries entries)
  | other => other

/-- What JSON keeps of items. -/
def keptItems : List Value → List Value
  | [] => []
  | item :: rest => kept item :: keptItems rest

/-- What JSON keeps of entries. -/
def keptEntries : List (Text × Value) → List (Text × Value)
  | [] => []
  | (key, value) :: rest => (key, kept value) :: keptEntries rest

end

mutual

/-- Of a normalised value only the signs of zeros are lost. -/
theorem kept_eq_plain {value : Value} (h : value.isNormalised = true) :
    value.kept = value.plain := by
  cases value with
  | number x => exact if_pos h
  | sequence items =>
    rw [isNormalised] at h
    rw [kept, plain, keptItems_eq_plainItems h]
  | mapping entries =>
    rw [isNormalised] at h
    rw [kept, plain, keptEntries_eq_plainEntries h]
  | null | bool _ | text _ => rfl

theorem keptItems_eq_plainItems {items : List Value} (h : areNormalised items = true) :
    keptItems items = plainItems items := by
  cases items with
  | nil => rfl
  | cons item rest =>
    rw [areNormalised, Bool.and_eq_true] at h
    rw [keptItems, plainItems, kept_eq_plain h.1, keptItems_eq_plainItems h.2]

theorem keptEntries_eq_plainEntries {entries : List (Text × Value)}
    (h : areNormalisedEntries entries = true) : keptEntries entries = plainEntries entries := by
  cases entries with
  | nil => rfl
  | cons entry rest =>
    rw [areNormalisedEntries, Bool.and_eq_true] at h
    rw [keptEntries, plainEntries, kept_eq_plain h.1, keptEntries_eq_plainEntries h.2]

end

end Value

namespace Json

variable {units rest done blanks : List CodeUnit} {u : CodeUnit} {fuel : Nat}

/-! ### What stands around the parts of a container -/

theorem readValue?_blanks (hblanks : ∀ u ∈ blanks, IsBlank u) (fuel : Nat)
    (units : List CodeUnit) : readValue? fuel (blanks ++ units) = readValue? fuel units := by
  cases fuel with
  | zero => rw [readValue?, readValue?]
  | succ fuel => rw [readValue?, readValue?, skipBlank_blanks hblanks]

/-- A value begins with a unit that closes no sequence. -/
theorem exists_of_readValue? {found : Value × List CodeUnit}
    (h : readValue? fuel units = some found) :
    ∃ first others, skipBlank units = first :: others ∧ first ≠ ']' := by
  cases fuel with
  | zero =>
    rw [readValue?] at h
    cases h
  | succ fuel =>
    rw [readValue?] at h
    split at h
    · cases h
    · next first others hskip =>
      refine ⟨first, others, hskip, ?_⟩
      rintro rfl
      rw [if_neg (by decide), if_neg (by decide), if_neg (by decide), if_neg (by decide),
        if_neg (by decide), if_neg (by decide), if_neg (by decide), if_neg (by decide)] at h
      cases h

theorem exists_of_readItems? {done : List Value} {found : Value × List CodeUnit}
    (h : readItems? fuel done units = some found) :
    ∃ first others, skipBlank units = first :: others ∧ first ≠ ']' := by
  cases fuel with
  | zero =>
    rw [readItems?] at h
    cases h
  | succ fuel =>
    rw [readItems?] at h
    split at h
    · cases h
    · next hread => exact exists_of_readValue? hread

/-- An entry begins with a quote. -/
theorem exists_of_readEntries? {done : Entries Value} {found : Value × List CodeUnit}
    (h : readEntries? fuel done units = some found) :
    ∃ others, skipBlank units = CodeUnit.ofChar '"' :: others := by
  cases fuel with
  | zero =>
    rw [readEntries?] at h
    cases h
  | succ fuel =>
    rw [readEntries?] at h
    split at h
    · next first others hskip =>
      split at h
      · next hquote => exact ⟨others, hquote ▸ hskip⟩
      · cases h
    · cases h

/-- A sequence whose items are read is read. -/
theorem readValue?_sequence {found : Value × List CodeUnit}
    (h : readItems? fuel [] units = some found) :
    readValue? (fuel + 1) (CodeUnit.ofChar '[' :: units) = some found := by
  obtain ⟨first, others, hskip, hfirst⟩ := exists_of_readItems? h
  rw [readValue?, skipBlank_cons (by decide)]
  dsimp only
  rw [if_neg (by decide), if_pos rfl, hskip]
  dsimp only
  rw [if_neg hfirst, h]

/-- A mapping whose entries are read is read. -/
theorem readValue?_mapping {found : Value × List CodeUnit}
    (h : readEntries? fuel [] units = some found) :
    readValue? (fuel + 1) (CodeUnit.ofChar '\x7b' :: units) = some found := by
  obtain ⟨others, hskip⟩ := exists_of_readEntries? h
  rw [readValue?, skipBlank_cons (by decide)]
  dsimp only
  rw [if_neg (by decide), if_neg (by decide), if_pos rfl, hskip]
  dsimp only
  rw [if_neg (by decide), h]

theorem readItems?_last (done : List Value) {item : Value} (hblanks : ∀ u ∈ blanks, IsBlank u)
    (h : readValue? fuel units = some (item, blanks ++ CodeUnit.ofChar ']' :: rest)) :
    readItems? (fuel + 1) done units = some (.sequence (done.reverse ++ [item]), rest) := by
  rw [readItems?, h]
  dsimp only
  rw [skipBlank_blanks hblanks, skipBlank_cons (by decide)]
  dsimp only
  rw [if_neg (by decide), if_pos rfl, List.reverse_cons]

theorem readItems?_more (done : List Value) {item : Value}
    (h : readValue? fuel units = some (item, CodeUnit.ofChar ',' :: rest)) :
    readItems? (fuel + 1) done units = readItems? fuel (item :: done) rest := by
  rw [readItems?, h]
  dsimp only
  rw [skipBlank_cons (by decide)]
  dsimp only
  rw [if_pos rfl]

/-- An entry is read up to what follows its value. -/
theorem readEntries?_entry (done : Entries Value) {value : Value} {after : List CodeUnit}
    (hblanks : ∀ u ∈ blanks, IsBlank u) (key : Text)
    (h : readValue? fuel units = some (value, after)) :
    readEntries? (fuel + 1) done
        (blanks ++ ((quote key).units ++ CodeUnit.ofChar ':' :: units)) =
      match skipBlank after with
      | mark :: rest =>
        if mark = ',' then readEntries? fuel (done.put key value) rest
        else if mark = '\x7d' then some (.mapping (done.put key value), rest)
        else none
      | [] => none := by
  rw [readEntries?, skipBlank_blanks hblanks, units_quote_append, skipBlank_cons (by decide)]
  dsimp only
  rw [if_pos rfl, readQuoted?_escape]
  dsimp only
  rw [skipBlank_cons (by decide)]
  dsimp only
  rw [if_pos rfl, h]
  rfl

theorem readEntries?_last (done : Entries Value) {value : Value} {ending : List CodeUnit}
    (hblanks : ∀ u ∈ blanks, IsBlank u) (hending : ∀ u ∈ ending, IsBlank u) (key : Text)
    (h : readValue? fuel units = some (value, ending ++ CodeUnit.ofChar '\x7d' :: rest)) :
    readEntries? (fuel + 1) done
        (blanks ++ ((quote key).units ++ CodeUnit.ofChar ':' :: units))
      = some (.mapping (done.put key value), rest) := by
  rw [readEntries?_entry done hblanks key h, skipBlank_blanks hending, skipBlank_cons (by decide)]
  dsimp only
  rw [if_neg (by decide), if_pos rfl]

theorem readEntries?_more (done : Entries Value) {value : Value}
    (hblanks : ∀ u ∈ blanks, IsBlank u) (key : Text)
    (h : readValue? fuel units = some (value, CodeUnit.ofChar ',' :: rest)) :
    readEntries? (fuel + 1) done
        (blanks ++ ((quote key).units ++ CodeUnit.ofChar ':' :: units))
      = readEntries? fuel (done.put key value) rest := by
  rw [readEntries?_entry done hblanks key h, skipBlank_cons (by decide)]
  dsimp only
  rw [if_pos rfl]

theorem endsNumber_comma (rest : List CodeUnit) : EndsNumber (CodeUnit.ofChar ',' :: rest) := by
  rintro u ⟨⟩
  decide

/-- Neither white space nor a unit that ends a number goes on with one. -/
theorem endsNumber_blanks (hblanks : ∀ u ∈ blanks, IsBlank u) (hunits : EndsNumber units) :
    EndsNumber (blanks ++ units) := by
  cases blanks with
  | nil => exact hunits
  | cons blank others =>
    rintro u ⟨⟩
    rcases hblanks _ List.mem_cons_self with rfl | rfl | rfl | rfl <;> decide

/-! ### Spacings -/

/-- How the parts of a container are set apart. -/
structure Spacing where
  /-- What a part at a level begins with. -/
  start : Nat → Text
  /-- What stands between the colon of an entry and its value. -/
  gap : Text
  /-- What a part begins with is white space. -/
  isBlank_start : ∀ level, ∀ u ∈ (start level).units, IsBlank u
  /-- What stands before a value is white space. -/
  isBlank_gap : ∀ u ∈ gap.units, IsBlank u

namespace Spacing

/-- Parts between brackets, set apart. -/
def enclose (spacing : Spacing) (level : Nat) (opening closing : Text) (parts : List Text) :
    Text :=
  if parts.isEmpty then opening ++ closing
  else
    let inner := spacing.start (level + 1)
    opening ++ inner ++ Text.join ("," ++ inner) parts ++ spacing.start level ++ closing

mutual

/-- A value at a level. -/
def write (spacing : Spacing) (level : Nat) : Value → Text
  | .null => "null"
  | .bool b => if b then "true" else "false"
  | .number x => writeNumber x
  | .text t => quote t
  | .sequence items => spacing.enclose level "[" "]" (writeItems spacing (level + 1) items)
  | .mapping entries =>
    spacing.enclose level "\x7b" "\x7d" (writeEntries spacing (level + 1) entries)

/-- The items of a sequence at a level. -/
def writeItems (spacing : Spacing) (level : Nat) : List Value → List Text
  | [] => []
  | item :: rest => write spacing level item :: writeItems spacing level rest

/-- The entries of a mapping at a level. -/
def writeEntries (spacing : Spacing) (level : Nat) : List (Text × Value) → List Text
  | [] => []
  | (key, value) :: rest =>
    (quote key ++ ":" ++ spacing.gap ++ write spacing level value) ::
      writeEntries spacing level rest

end

variable (spacing : Spacing)

/-- The parts of a container, one behind the other. -/
def row (spacing : Spacing) (level : Nat) (parts : List Text) : List CodeUnit :=
  (spacing.start level ++ Text.join ("," ++ spacing.start level) parts).units

theorem row_singleton (level : Nat) (part : Text) :
    spacing.row level [part] = (spacing.start level).units ++ part.units := rfl

theorem row_cons (level : Nat) (first : Text) {others : List Text} (hne : others ≠ []) :
    spacing.row level (first :: others) = (spacing.start level).units ++
      (first.units ++ CodeUnit.ofChar ',' :: spacing.row level others) := by
  have hcomma : (("," : String) : Text).units = [CodeUnit.ofChar ','] := by decide
  cases others with
  | nil => exact absurd rfl hne
  | cons second rest =>
    simp only [row, Text.join_cons_cons, Text.units_append, hcomma, List.append_assoc,
      List.cons_append, List.nil_append]

theorem enclose_nil (level : Nat) (opening closing : Text) :
    spacing.enclose level opening closing [] = opening ++ closing := rfl

theorem units_enclose (level : Nat) (opening closing : Text) {parts : List Text}
    (hne : parts ≠ []) :
    (spacing.enclose level opening closing parts).units = opening.units ++
      (spacing.row (level + 1) parts ++ ((spacing.start level).units ++ closing.units)) := by
  have hnonempty : parts.isEmpty = false := by simpa using hne
  rw [enclose, hnonempty, if_neg Bool.false_ne_true]
  simp only [row, Text.units_append, List.append_assoc]

theorem units_entry (key : Text) (level : Nat) (value : Value) :
    (quote key ++ ":" ++ spacing.gap ++ spacing.write level value).units =
      (quote key).units ++
        CodeUnit.ofChar ':' :: (spacing.gap.units ++ (spacing.write level value).units) := by
  have hmark : ((":" : String) : Text).units = [CodeUnit.ofChar ':'] := by decide
  simp only [Text.units_append, hmark, List.append_assoc, List.cons_append, List.nil_append]

theorem writeItems_ne_nil (level : Nat) {items : List Value} (hne : items ≠ []) :
    spacing.writeItems level items ≠ [] := by
  cases items with
  | nil => exact absurd rfl hne
  | cons item rest =>
    rw [writeItems]
    exact List.cons_ne_nil _ _

theorem writeEntries_ne_nil (level : Nat) {entries : Entries Value} (hne : entries ≠ []) :
    spacing.writeEntries level entries ≠ [] := by
  cases entries with
  | nil => exact absurd rfl hne
  | cons entry rest =>
    rw [writeEntries]
    exact List.cons_ne_nil _ _

/-! ### Values -/

theorem readValue?_emptySequence (fuel : Nat) (rest : List CodeUnit) :
    readValue? (fuel + 1) ((spacing.enclose 0 "[" "]" []).units ++ rest)
      = some (.sequence [], rest) := by
  have hunits : ("[" ++ "]" : Text).units = ['[', ']'] := by decide
  rw [enclose_nil, hunits]
  rfl

theorem readValue?_emptyMapping (fuel : Nat) (rest : List CodeUnit) :
    readValue? (fuel + 1) ((spacing.enclose 0 "\x7b" "\x7d" []).units ++ rest)
      = some (.mapping [], rest) := by
  have hunits : ("\x7b" ++ "\x7d" : Text).units = ['\x7b', '\x7d'] := by decide
  rw [enclose_nil, hunits]
  rfl

theorem readValue?_writeNumber (x : Number) (fuel : Nat) (hrest : EndsNumber rest) :
    readValue? (fuel + 1) ((writeNumber x).units ++ rest)
      = some ((Value.number x).kept, rest) := by
  rw [Value.kept]
  by_cases hfinite : x.isFinite = true
  · rw [if_pos hfinite]
    exact readValue?_number hfinite fuel hrest
  · rw [writeNumber, if_neg hfinite, if_neg hfinite]
    exact readValue?_null fuel rest

mutual

/-- A value that is written is read back as far as JSON keeps it, with as much fuel as it has
parts. -/
theorem readValue?_write {value : Value} (hordered : value.isOrdered = true) (level : Nat)
    {fuel : Nat} (hfuel : value.weight ≤ fuel) {rest : List CodeUnit} (hrest : EndsNumber rest) :
    readValue? fuel ((spacing.write level value).units ++ rest) = some (value.kept, rest) := by
  obtain ⟨fuel, rfl⟩ : ∃ more, fuel = more + 1 := by
    have hpositive := value.weight_pos
    exact ⟨fuel - 1, by omega⟩
  cases value with
  | null => exact readValue?_null fuel rest
  | bool b =>
    cases b with
    | true => exact readValue?_true fuel rest
    | false => exact readValue?_false fuel rest
  | number x => exact readValue?_writeNumber x fuel hrest
  | text t => exact readValue?_quote t fuel rest
  | sequence items =>
    rw [Value.isOrdered] at hordered
    rw [Value.weight] at hfuel
    cases items with
    | nil => exact spacing.readValue?_emptySequence fuel rest
    | cons item others =>
      have hopening : (("[" : String) : Text).units = [CodeUnit.ofChar '['] := by decide
      have hclosing : (("]" : String) : Text).units = [CodeUnit.ofChar ']'] := by decide
      have hweight : Value.weightOfItems (item :: others) ≤ fuel := by omega
      have hitems := readItems?_write (List.cons_ne_nil item others) hordered (level + 1) hweight
        [] level rest
      rw [List.reverse_nil, List.nil_append] at hitems
      have hparts := spacing.writeItems_ne_nil (level + 1) (List.cons_ne_nil item others)
      rw [write, spacing.units_enclose level _ _ hparts, hopening, hclosing, Value.kept]
      simpa only [List.append_assoc, List.cons_append, List.nil_append]
        using readValue?_sequence hitems
  | mapping entries =>
    obtain ⟨horder, hinner⟩ := Value.isOrdered_mapping.mp hordered
    rw [Value.weight] at hfuel
    cases entries with
    | nil => exact spacing.readValue?_emptyMapping fuel rest
    | cons entry others =>
      have hopening : (("\x7b" : String) : Text).units = [CodeUnit.ofChar '\x7b'] := by decide
      have hclosing : (("\x7d" : String) : Text).units = [CodeUnit.ofChar '\x7d'] := by decide
      have hweight : Value.weightOfEntries (entry :: others) ≤ fuel := by omega
      have hentries := readEntries?_write (List.cons_ne_nil entry others) hinner
        (List.nil_append (entry :: others) ▸ horder) (level + 1) hweight level rest
      rw [List.nil_append] at hentries
      have hparts := spacing.writeEntries_ne_nil (level + 1) (List.cons_ne_nil entry others)
      rw [write, spacing.units_enclose level _ _ hparts, hopening, hclosing, Value.kept]
      simpa only [List.append_assoc, List.cons_append, List.nil_append]
        using readValue?_mapping hentries
  termination_by structural value

/-- Items one behind the other are read up to the bracket behind them. -/
theorem readItems?_write {items : List Value} (hne : items ≠ [])
    (hordered : Value.areOrdered items = true) (level : Nat) {fuel : Nat}
    (hfuel : Value.weightOfItems items ≤ fuel) (done : List Value) (ending : Nat)
    (rest : List CodeUnit) :
    readItems? fuel done (spacing.row level (spacing.writeItems level items) ++
        ((spacing.start ending).units ++ CodeUnit.ofChar ']' :: rest))
      = some (.sequence (done.reverse ++ Value.keptItems items), rest) := by
  cases items with
  | nil => exact absurd rfl hne
  | cons item others =>
    rw [Value.areOrdered, Bool.and_eq_true] at hordered
    rw [Value.weightOfItems] at hfuel
    obtain ⟨fuel, rfl⟩ : ∃ more, fuel = more + 1 := ⟨fuel - 1, by omega⟩
    have hweight : item.weight ≤ fuel := by omega
    have hweights : Value.weightOfItems others ≤ fuel := by omega
    -- Behind an item stands a comma, white space or the bracket; none goes on with a number.
    have hitem : ∀ after, EndsNumber after → readValue? fuel ((spacing.start level).units ++
        ((spacing.write level item).units ++ after)) = some (item.kept, after) :=
      fun after hafter ↦ by
        rw [readValue?_blanks (spacing.isBlank_start level)]
        exact readValue?_write hordered.1 level hweight hafter
    have hbracket : EndsNumber (CodeUnit.ofChar ']' :: rest) := by
      rintro u ⟨⟩
      decide
    rw [writeItems, Value.keptItems]
    by_cases hlast : others = []
    · have hread := readItems?_last done (spacing.isBlank_start ending)
        (hitem _ (endsNumber_blanks (spacing.isBlank_start ending) hbracket))
      rw [hlast, writeItems, row_singleton, List.append_assoc, hread, Value.keptItems]
    · have hothers := readItems?_write hlast hordered.2 level hweights (item.kept :: done) ending
        rest
      have hread := fun after ↦ readItems?_more done (hitem _ (endsNumber_comma after))
      rw [spacing.row_cons level _ (spacing.writeItems_ne_nil level hlast), List.append_assoc,
        List.append_assoc, List.cons_append, hread, hothers, List.reverse_cons, List.append_assoc,
        List.singleton_append]
  termination_by structural items

/-- Entries one behind the other are read up to the brace behind them. -/
theorem readEntries?_write {done entries : Entries Value} (hne : entries ≠ [])
    (hordered : Value.areOrderedEntries entries = true)
    (horder : Entries.InOrder (done ++ entries)) (level : Nat) {fuel : Nat}
    (hfuel : Value.weightOfEntries entries ≤ fuel) (ending : Nat) (rest : List CodeUnit) :
    readEntries? fuel done (spacing.row level (spacing.writeEntries level entries) ++
        ((spacing.start ending).units ++ CodeUnit.ofChar '\x7d' :: rest))
      = some (.mapping (done ++ Value.keptEntries entries), rest) := by
  cases entries with
  | nil => exact absurd rfl hne
  | cons entry others =>
    obtain ⟨key, value⟩ := entry
    rw [Value.areOrderedEntries, Bool.and_eq_true] at hordered
    rw [Value.weightOfEntries] at hfuel
    obtain ⟨fuel, rfl⟩ : ∃ more, fuel = more + 1 := ⟨fuel - 1, by omega⟩
    have hweight : value.weight ≤ fuel := by omega
    have hweights : Value.weightOfEntries others ≤ fuel := by omega
    have hvalue : ∀ after, EndsNumber after → readValue? fuel (spacing.gap.units ++
        ((spacing.write level value).units ++ after)) = some (value.kept, after) :=
      fun after hafter ↦ by
        rw [readValue?_blanks spacing.isBlank_gap]
        exact readValue?_write hordered.1 level hweight hafter
    have hbrace : EndsNumber (CodeUnit.ofChar '\x7d' :: rest) := by
      rintro u ⟨⟩
      decide
    -- What is in order behind the entries that were read is put behind them.
    have horderRest : Entries.InOrder ((done ++ [(key, value.kept)]) ++ others) :=
      .of_keys _ (by simp [Entries.keys]) horder
    have hput : done.put key value.kept = done ++ [(key, value.kept)] :=
      Entries.put_eq_append (horderRest.sublist ((List.sublist_append_left _ _).map _))
    rw [writeEntries, Value.keptEntries]
    by_cases hlast : others = []
    · have hread := readEntries?_last done (spacing.isBlank_start level)
        (spacing.isBlank_start ending) key
        (hvalue _ (endsNumber_blanks (spacing.isBlank_start ending) hbrace))
      rw [hlast, writeEntries, row_singleton, units_entry]
      simp only [List.append_assoc, List.cons_append]
      rw [hread, hput, Value.keptEntries]
    · have hothers := readEntries?_write hlast hordered.2 horderRest level hweights ending rest
      have hread := fun after ↦ readEntries?_more done (spacing.isBlank_start level) key
        (hvalue _ (endsNumber_comma after))
      rw [spacing.row_cons level _ (spacing.writeEntries_ne_nil level hlast), units_entry]
      simp only [List.append_assoc, List.cons_append]
      rw [hread, hput, hothers, List.append_assoc, List.singleton_append]
  termination_by structural entries

end

/-! ### The length of what is written -/

theorem length_write_pos {value : Value} (hordered : value.isOrdered = true) (level : Nat) :
    0 < (spacing.write level value).units.length := by
  have hends : EndsNumber [] := fun u hu ↦ absurd hu (Option.not_mem_none u)
  have hread := spacing.readValue?_write hordered level (Nat.le_refl _) hends
  rw [List.append_nil] at hread
  refine List.length_pos_of_ne_nil fun hempty ↦ ?_
  obtain ⟨first, others, hskip, -⟩ := exists_of_readValue? hread
  rw [hempty, skipBlank] at hskip
  cases hskip

mutual

/-- What is written of a value has at least as many units as the value has parts. -/
theorem weight_le_length {value : Value} (hordered : value.isOrdered = true) (level : Nat) :
    value.weight ≤ (spacing.write level value).units.length := by
  have hsome := spacing.length_write_pos hordered level
  cases value with
  | sequence items =>
    rw [Value.isOrdered] at hordered
    by_cases hempty : items = []
    · rw [hempty, Value.weight, Value.weightOfItems]
      rw [hempty] at hsome
      omega
    · have hitems := weightOfItems_le_length hempty hordered (level + 1)
      rw [Value.weight, write, spacing.units_enclose level _ _ (spacing.writeItems_ne_nil _ hempty)]
      have hopening : (("[" : String) : Text).units = [CodeUnit.ofChar '['] := by decide
      have hclosing : (("]" : String) : Text).units = [CodeUnit.ofChar ']'] := by decide
      simp only [List.length_append, hopening, hclosing, List.length_singleton]
      omega
  | mapping entries =>
    obtain ⟨-, hinner⟩ := Value.isOrdered_mapping.mp hordered
    by_cases hempty : entries = []
    · rw [hempty, Value.weight, Value.weightOfEntries]
      rw [hempty] at hsome
      omega
    · have hentries := weightOfEntries_le_length hempty hinner (level + 1)
      rw [Value.weight, write,
        spacing.units_enclose level _ _ (spacing.writeEntries_ne_nil _ hempty)]
      have hopening : (("\x7b" : String) : Text).units = [CodeUnit.ofChar '\x7b'] := by decide
      have hclosing : (("\x7d" : String) : Text).units = [CodeUnit.ofChar '\x7d'] := by decide
      simp only [List.length_append, hopening, hclosing, List.length_singleton]
      omega
  | null | bool _ | number _ | text _ => exact hsome

theorem weightOfItems_le_length {items : List Value} (hne : items ≠ [])
    (hordered : Value.areOrdered items = true) (level : Nat) :
    Value.weightOfItems items ≤
      (spacing.row level (spacing.writeItems level items)).length + 1 := by
  cases items with
  | nil => exact absurd rfl hne
  | cons item others =>
    rw [Value.areOrdered, Bool.and_eq_true] at hordered
    have hitem := weight_le_length hordered.1 level
    rw [Value.weightOfItems, writeItems]
    by_cases hlast : others = []
    · rw [hlast, Value.weightOfItems, writeItems, row_singleton, List.length_append]
      omega
    · have hothers := weightOfItems_le_length hlast hordered.2 level
      rw [spacing.row_cons level _ (spacing.writeItems_ne_nil level hlast)]
      simp only [List.length_append, List.length_cons]
      omega

theorem weightOfEntries_le_length {entries : Entries Value} (hne : entries ≠ [])
    (hordered : Value.areOrderedEntries entries = true) (level : Nat) :
    Value.weightOfEntries entries ≤
      (spacing.row level (spacing.writeEntries level entries)).length + 1 := by
  cases entries with
  | nil => exact absurd rfl hne
  | cons entry others =>
    obtain ⟨key, value⟩ := entry
    rw [Value.areOrderedEntries, Bool.and_eq_true] at hordered
    have hvalue := weight_le_length hordered.1 level
    rw [Value.weightOfEntries, writeEntries]
    by_cases hlast : others = []
    · rw [hlast, Value.weightOfEntries, writeEntries, row_singleton, units_entry]
      simp only [List.length_append, List.length_cons]
      omega
    · have hothers := weightOfEntries_le_length hlast hordered.2 level
      rw [spacing.row_cons level _ (spacing.writeEntries_ne_nil level hlast), units_entry]
      simp only [List.length_append, List.length_cons]
      omega

end

/-- A whole text with a written value, and white space behind it, is read as what JSON keeps of the
value. -/
theorem read?_write_append {value : Value} (hordered : value.isOrdered = true) (level : Nat)
    {ending : Text} (hending : ∀ u ∈ ending.units, IsBlank u) :
    read? (spacing.write level value ++ ending) = some value.kept := by
  have hweight := spacing.weight_le_length hordered level
  have hfuel : value.weight ≤ 2 * (spacing.write level value ++ ending).length + 2 := by
    rw [Text.length, Text.units_append, List.length_append]
    omega
  have hends : EndsNumber [] := fun u hu ↦ absurd hu (Option.not_mem_none u)
  have hread := spacing.readValue?_write hordered level hfuel
    (endsNumber_blanks hending hends)
  have hskip := skipBlank_blanks hending []
  rw [List.append_nil] at hread hskip
  rw [read?, Text.units_append, hread]
  dsimp only
  rw [hskip]
  rfl

/-! ### Well-formed texts -/

theorem wellFormed_blanks (h : ∀ u ∈ blanks, IsBlank u) : Text.WellFormed blanks := by
  refine .of_forall fun u hu ↦ ?_
  rcases h u hu with rfl | rfl | rfl | rfl <;> decide

theorem wellFormed_row (level : Nat) {parts : List Text}
    (h : ∀ part ∈ parts, Text.WellFormed part.units) :
    Text.WellFormed (spacing.row level parts) := by
  have hstart := wellFormed_blanks (spacing.isBlank_start level)
  induction parts with
  | nil => exact hstart.append .nil
  | cons first others ih =>
    obtain ⟨hfirst, hothers⟩ := List.forall_mem_cons.mp h
    by_cases hlast : others = []
    · rw [hlast, row_singleton]
      exact hstart.append hfirst
    · rw [spacing.row_cons level first hlast]
      exact hstart.append (hfirst.append (.cons (by decide) (ih hothers)))

theorem wellFormed_enclose (level : Nat) {opening closing : Text} {parts : List Text}
    (hopening : Text.WellFormed opening.units) (hclosing : Text.WellFormed closing.units)
    (h : ∀ part ∈ parts, Text.WellFormed part.units) :
    Text.WellFormed (spacing.enclose level opening closing parts).units := by
  by_cases hempty : parts = []
  · rw [hempty]
    exact hopening.append hclosing
  · rw [spacing.units_enclose level opening closing hempty]
    exact hopening.append ((spacing.wellFormed_row (level + 1) h).append
      ((wellFormed_blanks (spacing.isBlank_start level)).append hclosing))

mutual

/-- What is written of a value is well-formed. -/
theorem wellFormed_write (value : Value) (level : Nat) :
    Text.WellFormed (spacing.write level value).units := by
  cases value with
  | null => exact .of_all rfl
  | bool b => cases b <;> exact .of_all rfl
  | number x => exact (oneLine_writeNumber x).wellFormed
  | text t => exact (oneLine_quote t).wellFormed
  | sequence items =>
    exact spacing.wellFormed_enclose level (.cons (by decide) .nil) (.cons (by decide) .nil)
      (wellFormed_writeItems items (level + 1))
  | mapping entries =>
    exact spacing.wellFormed_enclose level (.cons (by decide) .nil) (.cons (by decide) .nil)
      (wellFormed_writeEntries entries (level + 1))

theorem wellFormed_writeItems (items : List Value) (level : Nat) :
    ∀ part ∈ spacing.writeItems level items, Text.WellFormed part.units := by
  cases items with
  | nil => exact List.forall_mem_nil _
  | cons item rest =>
    rw [writeItems]
    exact List.forall_mem_cons.mpr
      ⟨wellFormed_write item level, wellFormed_writeItems rest level⟩

theorem wellFormed_writeEntries (entries : List (Text × Value)) (level : Nat) :
    ∀ part ∈ spacing.writeEntries level entries, Text.WellFormed part.units := by
  cases entries with
  | nil => exact List.forall_mem_nil _
  | cons entry rest =>
    obtain ⟨key, value⟩ := entry
    have hgap := wellFormed_blanks spacing.isBlank_gap
    rw [writeEntries]
    refine List.forall_mem_cons.mpr ⟨?_, wellFormed_writeEntries rest level⟩
    rw [units_entry]
    exact (oneLine_quote key).wellFormed.append
      (.cons (by decide) (hgap.append (wellFormed_write value level)))

end

end Spacing

/-! ### One line -/

/-- Nothing is between the parts of a value on one line. -/
def tight : Spacing where
  start := fun _ ↦ Text.empty
  gap := Text.empty
  isBlank_start := fun _ ↦ List.forall_mem_nil _
  isBlank_gap := List.forall_mem_nil _

theorem tight_enclose (level : Nat) (opening closing : Text) (parts : List Text) :
    tight.enclose level opening closing parts =
      opening ++ Text.join "," parts ++ closing := by
  cases parts with
  | nil => exact congrArg (· ++ closing) (Text.append_empty opening).symm
  | cons first rest =>
    rw [Spacing.enclose, List.isEmpty_cons, if_neg Bool.false_ne_true]
    simp only [tight, Text.append_empty]

mutual

theorem tight_write (value : Value) (level : Nat) : tight.write level value = write value := by
  cases value with
  | sequence items =>
    rw [Spacing.write, write, tight_enclose, tight_writeItems items]
  | mapping entries =>
    rw [Spacing.write, write, tight_enclose, tight_writeEntries entries]
  | null | bool _ | number _ | text _ => rw [Spacing.write, write]

theorem tight_writeItems (items : List Value) (level : Nat) :
    tight.writeItems level items = writeItems items := by
  cases items with
  | nil => rw [Spacing.writeItems, writeItems]
  | cons item rest =>
    rw [Spacing.writeItems, writeItems, tight_write item, tight_writeItems rest]

theorem tight_writeEntries (entries : List (Text × Value)) (level : Nat) :
    tight.writeEntries level entries = writeEntries entries := by
  cases entries with
  | nil => rw [Spacing.writeEntries, writeEntries]
  | cons entry rest =>
    obtain ⟨key, value⟩ := entry
    have hgap : quote key ++ ":" ++ tight.gap = quote key ++ ":" := Text.append_empty _
    rw [Spacing.writeEntries, writeEntries, hgap, tight_write value, tight_writeEntries rest]

end

/-- A text of JSON on one line is read as what JSON keeps of what was written. -/
theorem read?_write {value : Value} (hordered : value.isOrdered = true) :
    read? (write value) = some value.kept := by
  have hread : read? (tight.write 0 value ++ Text.empty) = some value.kept :=
    tight.read?_write_append hordered 0 (List.forall_mem_nil _)
  rwa [Text.append_empty, tight_write] at hread

/-! ### Several lines -/

/-- What a line at a level begins with. -/
def lineStart (level : Nat) : Text := "\n" ++ Text.repeated level "  "

theorem isBlank_lineEnd : ∀ u ∈ (("\n" : String) : Text).units, IsBlank u := by
  rw [Text.break_eq]
  exact List.forall_mem_singleton.mpr (by decide)

theorem isBlank_lineStart (level : Nat) : ∀ u ∈ (lineStart level).units, IsBlank u := by
  have hspaces : ∀ count : Nat, ∀ u ∈ (Text.repeated count "  ").units, IsBlank u := by
    intro count u hu
    obtain ⟨part, hpart, hmem⟩ := List.mem_flatMap.mp hu
    have hunits : (("  " : String) : Text).units = [CodeUnit.ofChar ' ', CodeUnit.ofChar ' '] := by
      decide
    rw [(List.mem_replicate.mp hpart).2, hunits, List.mem_cons, List.mem_singleton,
      or_self] at hmem
    exact .inl hmem
  intro u hu
  exact (List.mem_append.mp hu).elim (isBlank_lineEnd u) (hspaces level u)

/-- Each part is on a line of its own, one level further in. -/
def indented : Spacing where
  start := lineStart
  gap := " "
  isBlank_start := isBlank_lineStart
  isBlank_gap := by
    have hunits : ((" " : String) : Text).units = [CodeUnit.ofChar ' '] := by decide
    rw [hunits]
    exact List.forall_mem_singleton.mpr (by decide)

theorem indented_enclose (level : Nat) (opening closing : Text) (parts : List Text) :
    indented.enclose level opening closing parts = block level opening closing parts := by
  cases parts with
  | nil => rfl
  | cons first rest =>
    rw [Spacing.enclose, block, List.isEmpty_cons, if_neg Bool.false_ne_true,
      if_neg Bool.false_ne_true]
    simp only [indented, lineStart, Text.append_assoc]

mutual

theorem indented_write (value : Value) (level : Nat) :
    indented.write level value = writeLines level value := by
  cases value with
  | sequence items =>
    rw [Spacing.write, writeLines, indented_enclose, indented_writeItems items]
  | mapping entries =>
    rw [Spacing.write, writeLines, indented_enclose, indented_writeEntries entries]
  | null | bool _ | number _ | text _ => rw [Spacing.write, writeLines]

theorem indented_writeItems (items : List Value) (level : Nat) :
    indented.writeItems level items = writeLinesItems level items := by
  cases items with
  | nil => rw [Spacing.writeItems, writeLinesItems]
  | cons item rest =>
    rw [Spacing.writeItems, writeLinesItems, indented_write item, indented_writeItems rest]

theorem indented_writeEntries (entries : List (Text × Value)) (level : Nat) :
    indented.writeEntries level entries = writeLinesEntries level entries := by
  cases entries with
  | nil => rw [Spacing.writeEntries, writeLinesEntries]
  | cons entry rest =>
    obtain ⟨key, value⟩ := entry
    have hmark : ":" ++ indented.gap = ": " := by decide
    rw [Spacing.writeEntries, writeLinesEntries, Text.append_assoc (quote key), hmark,
      indented_write value, indented_writeEntries rest]

end

/-- A value over several lines is written to a disk as it is, with the end of its last line. -/
theorem mended_writeIndented (value : Value) :
    (writeIndented value ++ "\n").mended = writeIndented value ++ "\n" := by
  have hend : Text.WellFormed (("\n" : String) : Text).units := .of_all (by decide)
  have hvalue := (indented.wellFormed_write value 0).append hend
  rw [indented_write] at hvalue
  exact congrArg Text.mk ((Text.units_mended _).trans hvalue.mend_eq)

/-- A text of indented JSON is read as the plain form of what was written. -/
theorem read?_writeIndented {value : Value} (hnormalised : value.isNormalised = true)
    (hordered : value.isOrdered = true) :
    read? (writeIndented value ++ "\n") = some value.plain := by
  have hread := indented.read?_write_append hordered 0 isBlank_lineEnd
  rwa [indented_write, Value.kept_eq_plain hnormalised] at hread

end Json

end BrowserFlow
