import BrowserFlow.Json.Reading
import BrowserFlow.Json.Written
import BrowserFlow.Proofs.Number.Layout
import BrowserFlow.Proofs.Text.Mended

/-!
Texts and numbers written as JSON are read back. A quoted text is read unit by
unit, whatever was escaped (`Json.readQuoted?_escape`); a number is read from its
parts, as far as they go (`Json.readNumber?_parts`), and so its written form is
read as the number (`Json.readValue?_number`).
-/

set_option autoImplicit false
set_option relaxedAutoImplicit false

namespace BrowserFlow.Json

variable {units done rest : List CodeUnit} {u unit mark : CodeUnit} {x : Number}

/-! ### White space -/

/-- White space of a JSON text. -/
def IsBlank (u : CodeUnit) : Prop := u = ' ' ∨ u = '\t' ∨ u = '\n' ∨ u = '\r'

instance (u : CodeUnit) : Decidable (IsBlank u) := inferInstanceAs (Decidable (_ ∨ _))

theorem skipBlank_blanks {blanks : List CodeUnit} (h : ∀ u ∈ blanks, IsBlank u)
    (rest : List CodeUnit) : skipBlank (blanks ++ rest) = skipBlank rest := by
  induction blanks with
  | nil => rfl
  | cons u others ih =>
    obtain ⟨hu, hothers⟩ := List.forall_mem_cons.mp h
    rw [List.cons_append, skipBlank, if_pos (by simpa [IsBlank, or_assoc] using hu), ih hothers]

theorem skipBlank_cons (h : ¬ IsBlank u) (rest : List CodeUnit) :
    skipBlank (u :: rest) = u :: rest := by
  rw [skipBlank, if_neg (by simpa [IsBlank, or_assoc] using h)]

/-! ### Quoted texts -/

theorem readQuoted?_plain (hquote : u ≠ '"') (hslash : u ≠ '\\') (hcontrol : ¬ u < 0x20)
    (done rest : List CodeUnit) : readQuoted? done (u :: rest) = readQuoted? (u :: done) rest := by
  rw [readQuoted?.eq_def]
  dsimp only
  rw [if_neg hquote, if_neg hslash, if_neg hcontrol]

theorem readQuoted?_marked (hmark : mark ≠ 'u') (h : unescape? mark = some unit)
    (done rest : List CodeUnit) :
    readQuoted? done (CodeUnit.ofChar '\\' :: mark :: rest) = readQuoted? (unit :: done) rest := by
  rw [readQuoted?.eq_def]
  dsimp only
  rw [if_neg (by decide), if_pos rfl, if_neg hmark, h]

/-- A digit in base sixteen is read as what it was written for. -/
theorem valueInBase?_hexDigit {n : Nat} (h : n < 16) :
    (hexDigit n).valueInBase? 16 = some n := by
  have hdigit : ∀ m : Fin 16, (hexDigit m.val).valueInBase? 16 = some m.val := by decide
  exact hdigit ⟨n, h⟩

theorem readQuoted?_escapeNumber (u : CodeUnit) (done rest : List CodeUnit) :
    readQuoted? done (escapeNumber u ++ rest) = readQuoted? (u :: done) rest := by
  have hbound : u.toNat < 65536 := u.toNat_lt
  have hvalue : ((u.toNat / 4096 % 16 * 16 + u.toNat / 256 % 16) * 16 + u.toNat / 16 % 16) * 16
      + u.toNat % 16 = u.toNat := by omega
  have hhex : fourHex? (hexDigit (u.toNat / 4096 % 16)) (hexDigit (u.toNat / 256 % 16))
      (hexDigit (u.toNat / 16 % 16)) (hexDigit (u.toNat % 16)) = some u := by
    simp only [fourHex?, valueInBase?_hexDigit (Nat.mod_lt _ (by decide : 16 > 0)),
      Option.bind_eq_bind, Option.bind_some, hvalue]
    exact congrArg some (UInt16.ofNat_toNat)
  rw [escapeNumber]
  change readQuoted? done (CodeUnit.ofChar '\\' :: CodeUnit.ofChar 'u' :: _ :: _ :: _ :: _ :: rest)
    = _
  rw [readQuoted?.eq_def]
  dsimp only
  rw [if_neg (by decide), if_pos rfl, if_pos rfl, hhex]

theorem readQuoted?_escapeUnit (u : CodeUnit) (done rest : List CodeUnit) :
    readQuoted? done (escapeUnit u ++ rest) = readQuoted? (u :: done) rest := by
  have hmarked : ∀ mark : CodeUnit, mark ≠ 'u' → unescape? mark = some u →
      readQuoted? done ([CodeUnit.ofChar '\\', mark] ++ rest) = readQuoted? (u :: done) rest :=
    fun mark hmark h ↦ readQuoted?_marked hmark h done rest
  unfold escapeUnit
  by_cases hquote : u = '"'
  · subst hquote
    exact hmarked _ (by decide) (by decide)
  by_cases hslash : u = '\\'
  · subst hslash
    exact hmarked _ (by decide) (by decide)
  rw [if_neg hquote, if_neg hslash]
  repeat' split
  all_goals first
    | (next h => subst h; exact hmarked _ (by decide) (by decide))
    | exact readQuoted?_escapeNumber u done rest
    | (next hcontrol => exact readQuoted?_plain hquote hslash hcontrol done rest)

/-- A surrogate needs no escape to be read. -/
theorem readQuoted?_surrogate (h : u.isSurrogate = true) (done rest : List CodeUnit) :
    readQuoted? done (u :: rest) = readQuoted? (u :: done) rest := by
  have hbounds := CodeUnit.isSurrogate_iff.mp h
  refine readQuoted?_plain ?_ ?_ ?_ done rest
  · rintro rfl
    exact absurd h (by decide)
  · rintro rfl
    exact absurd h (by decide)
  · rw [UInt16.lt_iff_toNat_lt]
    simp only [UInt16.reduceToNat]
    omega

/-- What is escaped is put together from pairs of surrogates, which stay, and from units that are
escaped on their own. -/
theorem escape_induction {motive : List CodeUnit → List CodeUnit → Prop} (nil : motive [] [])
    (surrogate : ∀ u others, u.isSurrogate = true → motive others (escape others) →
      motive (u :: others) (escapeNumber u ++ escape others))
    (plain : ∀ u others, u.isSurrogate = false → motive others (escape others) →
      motive (u :: others) (escapeUnit u ++ escape others))
    (pair : ∀ u v others, u.isHighSurrogate = true → v.isLowSurrogate = true →
      motive others (escape others) → motive (u :: v :: others) (u :: v :: escape others))
    (units : List CodeUnit) : motive units (escape units) := by
  induction units using escape.induct with
  | case1 => exact nil
  | case2 u hsurrogate =>
    rw [escape, if_pos hsurrogate, ← List.append_nil (escapeNumber u)]
    exact surrogate u [] hsurrogate nil
  | case3 u hplain =>
    rw [escape, if_neg hplain, ← List.append_nil (escapeUnit u)]
    exact plain u [] (Bool.eq_false_iff.mpr hplain) nil
  | case4 u v others hpair ih =>
    obtain ⟨hu, hv⟩ := Bool.and_eq_true_iff.mp hpair
    rw [escape, if_pos hpair]
    exact pair u v others hu hv ih
  | case5 u v others hpair hsurrogate ih =>
    rw [escape, if_neg hpair, if_pos hsurrogate]
    exact surrogate u (v :: others) hsurrogate ih
  | case6 u v others hpair hplain ih =>
    rw [escape, if_neg hpair, if_neg hplain]
    exact plain u (v :: others) (Bool.eq_false_iff.mpr hplain) ih

/-- A quoted text is read up to its closing quote, whatever was escaped in it. -/
theorem readQuoted?_escape (units done rest : List CodeUnit) :
    readQuoted? done (escape units ++ CodeUnit.ofChar '"' :: rest)
      = some (done.reverse ++ units, rest) := by
  refine escape_induction (motive := fun units escaped ↦ ∀ done,
    readQuoted? done (escaped ++ CodeUnit.ofChar '"' :: rest)
      = some (done.reverse ++ units, rest)) ?_ ?_ ?_ ?_ units done
  · intro done
    rw [List.nil_append, readQuoted?.eq_def]
    dsimp only
    rw [if_pos rfl, List.append_nil]
  · intro u others _ ih done
    rw [List.append_assoc, readQuoted?_escapeNumber, ih, List.reverse_cons, List.append_assoc,
      List.singleton_append]
  · intro u others _ ih done
    rw [List.append_assoc, readQuoted?_escapeUnit, ih, List.reverse_cons, List.append_assoc,
      List.singleton_append]
  · intro u v others hu hv ih done
    have hhigh : u.isSurrogate = true := by rw [CodeUnit.isSurrogate, hu, Bool.true_or]
    have hlow : v.isSurrogate = true := by rw [CodeUnit.isSurrogate, hv, Bool.or_true]
    rw [List.cons_append, List.cons_append, readQuoted?_surrogate hhigh,
      readQuoted?_surrogate hlow, ih]
    simp

/-! ### Numbers -/

/-- What follows a number does not belong to it. -/
def EndsNumber (rest : List CodeUnit) : Prop :=
  ∀ u ∈ rest.head?, u.isDigit = false ∧ u ≠ '.' ∧ u ≠ 'e' ∧ u ≠ 'E'

theorem takeExponent_power {power : Option (Bool × List CodeUnit)}
    (hpower : ∀ negative digits, power = some (negative, digits) → IsDigits digits)
    (hrest : EndsNumber rest) :
    Number.takeExponent (NumberParts.powerUnits power ++ rest)
      = (NumberParts.powerValue power, rest) := by
  cases power with
  | none =>
    cases rest with
    | nil => rfl
    | cons u others =>
      obtain ⟨-, -, hsmall, hlarge⟩ := hrest u rfl
      simp [NumberParts.powerUnits, NumberParts.powerValue, Number.takeExponent, hsmall, hlarge]
  | some power =>
    obtain ⟨negative, digits⟩ := power
    have hdigits := hpower negative digits rfl
    have htake : Number.takeDigits (digits ++ rest) = (digits, rest) :=
      Number.takeDigits_eq hdigits.2 fun u hu ↦ (hrest u hu).1
    have hplus : CodeUnit.ofChar '+' ≠ CodeUnit.ofChar '-' := by decide
    cases negative <;>
    simp [NumberParts.powerUnits, NumberParts.powerValue, Number.takeExponent, htake, hdigits.1,
      hplus]

theorem endsNumber_power_head (power : Option (Bool × List CodeUnit)) (hrest : EndsNumber rest) :
    ∀ u ∈ (NumberParts.powerUnits power ++ rest).head?, u.isDigit = false ∧ u ≠ '.' := by
  cases power with
  | none => exact fun u hu ↦ ⟨(hrest u hu).1, (hrest u hu).2.1⟩
  | some power =>
    intro u hu
    obtain rfl := Option.some.inj hu
    decide

theorem readFraction?_fraction {fraction : List CodeUnit}
    (hfraction : ∀ u ∈ fraction, u.isDigit = true)
    (hrest : ∀ u ∈ rest.head?, u.isDigit = false ∧ u ≠ '.') :
    readFraction? (NumberParts.fractionUnits fraction ++ rest) = some (fraction, rest) := by
  unfold NumberParts.fractionUnits
  split
  · next hnone =>
    subst hnone
    cases rest with
    | nil => rfl
    | cons u others =>
      rw [List.nil_append, readFraction?, if_neg (hrest u rfl).2]
  · next hsome =>
    have htake : Number.takeDigits (fraction ++ rest) = (fraction, rest) :=
      Number.takeDigits_eq hfraction fun u hu ↦ (hrest u hu).1
    have hnonempty : fraction.isEmpty = false := by simpa using hsome
    rw [List.cons_append, readFraction?, if_pos rfl, htake]
    dsimp only
    rw [hnonempty, if_neg Bool.false_ne_true]

/-- The first digits of the parts are their whole part. -/
theorem takeDigits_parts {parts : NumberParts} (h : parts.IsProper) (hrest : EndsNumber rest) :
    Number.takeDigits (parts.units ++ rest) =
      (parts.whole, NumberParts.fractionUnits parts.fraction ++
        (NumberParts.powerUnits parts.power ++ rest)) := by
  have hpower := endsNumber_power_head parts.power hrest
  rw [NumberParts.units, List.append_assoc, List.append_assoc]
  refine Number.takeDigits_eq h.whole.2 fun u hu ↦ ?_
  unfold NumberParts.fractionUnits at hu
  split at hu
  · exact (hpower u hu).1
  · obtain rfl := Option.some.inj hu
    decide

/-- A number is read from its parts, up to where they end. -/
theorem readNumber?_parts (negative : Bool) {parts : NumberParts} (h : parts.IsProper)
    (hrest : EndsNumber rest) :
    readNumber? negative (parts.units ++ rest)
      = some (Number.ofDecimal negative parts.decimal.digits parts.decimal.exponent, rest) := by
  have hpower := endsNumber_power_head parts.power hrest
  have hwhole := takeDigits_parts h hrest
  have hfraction := readFraction?_fraction h.fraction hpower
  have hexponent := takeExponent_power h.power hrest
  obtain ⟨first, more, hcons, -⟩ := h.whole.exists_cons
  have hleading : (decide (first = '0') && !more.isEmpty) = false := by
    rcases h.leading with hzero | hhead
    · rw [hcons] at hzero
      obtain ⟨-, rfl⟩ := List.cons.inj hzero
      simp
    · have hne : first ≠ '0' := fun heq ↦ hhead (by rw [hcons, heq]; rfl)
      simp [hne]
  rw [readNumber?, hwhole]
  dsimp only
  rw [hcons]
  dsimp only
  rw [hleading, if_neg Bool.false_ne_true, hfraction, Option.bind_eq_bind, Option.bind_some]
  dsimp only
  rw [hexponent, ← hcons]
  cases rest with
  | nil => rfl
  | cons mark others =>
    obtain ⟨-, -, hsmall, hlarge⟩ := hrest mark rfl
    simp only [hsmall, hlarge, decide_false, Bool.or_self, Bool.false_eq_true, if_false]
    rfl

/-! ### Values that hold no others -/

theorem readValue?_digit (h : u.isDigit = true) (fuel : Nat) (rest : List CodeUnit) :
    readValue? (fuel + 1) (u :: rest)
      = (readNumber? false (u :: rest)).map fun (x, after) ↦ (.number x, after) := by
  have hne : ∀ other : CodeUnit, other.isDigit = false → u ≠ other := by
    rintro other hother rfl
    rw [h] at hother
    cases hother
  have hblank : ¬ IsBlank u := by
    rintro (rfl | rfl | rfl | rfl) <;> exact absurd h (by decide)
  rw [readValue?, skipBlank_cons hblank]
  dsimp only
  rw [if_neg (hne _ (by decide)), if_neg (hne _ (by decide)), if_neg (hne _ (by decide)),
    if_neg (hne _ (by decide)), if_pos h]

theorem readValue?_minus (fuel : Nat) (rest : List CodeUnit) :
    readValue? (fuel + 1) (CodeUnit.ofChar '-' :: rest)
      = (readNumber? true rest).map fun (x, after) ↦ (.number x, after) := by
  rw [readValue?, skipBlank_cons (by decide)]
  dsimp only
  rw [if_neg (by decide), if_neg (by decide), if_neg (by decide), if_pos rfl]

theorem units_quote_append (t : Text) (rest : List CodeUnit) :
    (quote t).units ++ rest =
      CodeUnit.ofChar '"' :: (escape t.units ++ CodeUnit.ofChar '"' :: rest) := by
  have hmark : (("\"" : String) : Text).units = [CodeUnit.ofChar '"'] := by decide
  rw [quote, Text.units_append, Text.units_append, hmark]
  simp

/-- A quoted text is read back. -/
theorem readValue?_quote (t : Text) (fuel : Nat) (rest : List CodeUnit) :
    readValue? (fuel + 1) ((quote t).units ++ rest) = some (.text t, rest) := by
  rw [units_quote_append, readValue?, skipBlank_cons (by decide)]
  dsimp only
  rw [if_pos rfl, readQuoted?_escape]
  rfl

theorem readValue?_null (fuel : Nat) (rest : List CodeUnit) :
    readValue? (fuel + 1) ((("null" : String) : Text).units ++ rest) = some (.null, rest) := by
  have hunits : (("null" : String) : Text).units = ['n', 'u', 'l', 'l'] := by decide
  rw [hunits]
  rfl

theorem readValue?_true (fuel : Nat) (rest : List CodeUnit) :
    readValue? (fuel + 1) ((("true" : String) : Text).units ++ rest) = some (.bool true, rest) := by
  have hunits : (("true" : String) : Text).units = ['t', 'r', 'u', 'e'] := by decide
  rw [hunits]
  rfl

theorem readValue?_false (fuel : Nat) (rest : List CodeUnit) :
    readValue? (fuel + 1) ((("false" : String) : Text).units ++ rest)
      = some (.bool false, rest) := by
  have hunits : (("false" : String) : Text).units = ['f', 'a', 'l', 's', 'e'] := by decide
  rw [hunits]
  rfl

/-- The parts of zero. -/
def zeroParts : NumberParts := ⟨[CodeUnit.ofChar '0'], [], none⟩

theorem isProper_zero : zeroParts.IsProper := by
  refine ⟨?_, .inl rfl, ?_, ?_⟩
  · change IsDigits [CodeUnit.ofChar '0']
    decide
  · exact fun u hu ↦ absurd hu (List.not_mem_nil)
  · exact fun negative digits h ↦ absurd h (Option.some_ne_none _).symm

/-- A finite number is read back, zero without its sign. -/
theorem readValue?_number (hfinite : x.isFinite = true) (fuel : Nat) (hrest : EndsNumber rest) :
    readValue? (fuel + 1) ((writeNumber x).units ++ rest) = some (.number x.plain, rest) := by
  obtain ⟨negative, size, rfl⟩ := Number.exists_of_isFinite hfinite
  have htext : writeNumber (.finite negative size) = Number.toText (.finite negative size) := by
    rw [writeNumber, if_pos hfinite]
  by_cases hzero : size.units = 0
  · have hplain : Number.plain (.finite negative size) = .zero false := by
      rw [Number.plain, if_pos (by simp [Number.isZero, hzero])]
    have hunits : (Number.toText (.finite negative size)).units ++ rest
        = CodeUnit.ofChar '0' :: rest := by
      have hdigit : (("0" : String) : Text).units = [CodeUnit.ofChar '0'] := by decide
      rw [Number.toText, if_pos hzero, hdigit, List.singleton_append]
    have hread : readNumber? false (CodeUnit.ofChar '0' :: rest) = some (.zero false, rest) := by
      have hparts := readNumber?_parts false isProper_zero hrest
      have hdecimal : zeroParts.decimal = ⟨0, 0⟩ := by decide
      have hzeroUnits : zeroParts.units = [CodeUnit.ofChar '0'] := by decide
      rw [hdecimal, hzeroUnits, List.singleton_append, Number.ofDecimal, if_pos rfl] at hparts
      exact hparts
    rw [htext, hunits, readValue?_digit (by decide), hplain, hread, Option.map_some]
  · have hplain : Number.plain (.finite negative size) = .finite negative size := by
      rw [Number.plain, if_neg (by simpa [Number.isZero] using hzero)]
    obtain ⟨parts, hproper, hlayOut, hread⟩ := Number.exists_parts_shortest negative hzero
    have hnumber := readNumber?_parts negative hproper hrest
    rw [hread] at hnumber
    rw [htext, hplain, Number.toText, if_neg hzero, Text.units_append, hlayOut]
    cases negative with
    | true =>
      have hsign : (("-" : String) : Text).units = [CodeUnit.ofChar '-'] := by decide
      rw [if_pos rfl, hsign, List.append_assoc, List.singleton_append, readValue?_minus, hnumber,
        Option.map_some]
    | false =>
      have hsign : (("" : String) : Text).units = [] := by decide
      obtain ⟨first, more, hcons, hfirst⟩ := hproper.exists_cons
      rw [hcons, List.cons_append] at hnumber
      rw [if_neg Bool.false_ne_true, hsign, List.nil_append, hcons, List.cons_append,
        readValue?_digit hfirst, hnumber, Option.map_some]

end BrowserFlow.Json
