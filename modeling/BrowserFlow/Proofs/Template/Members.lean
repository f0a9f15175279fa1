import BrowserFlow.Proofs.Expression.Following
import BrowserFlow.Proofs.Number.Range
import BrowserFlow.Proofs.Number.Written

/-!
Members named in placeholders. Between quotes in brackets a key is named as it is, behind whatever
escapes, and every key has a spelling without two like braces in a row
(`Template.exists_apart_escaped`). Behind a point a name is named as it is too, but digits are a
number, and the member is the one whose key is the text of the number
(`Template.resolve_memberSource_digits`). So digits name the member that they are the key of when
they are the text of a number, as those of every natural number below 2 to the power of 53 are.
-/

set_option autoImplicit false
set_option relaxedAutoImplicit false

namespace BrowserFlow

/-! ### Two like braces in a row -/

section Braces

variable {u : CodeUnit} {front units behind : List CodeUnit}

theorem not_infix_of_plain (h : ∀ v ∈ units, v.isBrace = false) (hu : u.isBrace = true) :
    ¬[u, u] <:+: units := by
  intro hoccurs
  have hplain := h u (hoccurs.subset (by simp))
  rw [hu] at hplain
  cases hplain

/-- Two like units in a row are not among units before which there is none of them. -/
theorem infix_of_plain_append (h : u ∉ front) (hoccurs : [u, u] <:+: front ++ units) :
    [u, u] <:+: units := by
  induction front with
  | nil => exact hoccurs
  | cons v front ih =>
    rw [List.mem_cons, not_or] at h
    rcases List.infix_cons_iff.mp hoccurs with hstarts | hwithin
    · exact absurd (List.cons_prefix_cons.mp hstarts).1 h.1
    · exact ih h.2 hwithin

theorem infix_of_append_plain (h : u ∉ behind) (hoccurs : [u, u] <:+: units ++ behind) :
    [u, u] <:+: units := by
  rw [← List.reverse_infix, List.reverse_append] at hoccurs
  rw [← List.reverse_infix]
  exact infix_of_plain_append (by simpa using h) hoccurs

end Braces

namespace Template

variable {scope : Scope} {root key : Text} {entries : Entries Value} {segment : Segment}
variable {quote u : CodeUnit} {written : List CodeUnit} {x : Number}

/-- What stands between double braces to name a member behind a point. -/
def memberSource (root key : Text) : Text := root ++ "." ++ key

/-- What stands between double braces to name a member between quotes in brackets. -/
def quotedMemberSource (root : Text) (quote : CodeUnit) (written : List CodeUnit) : Text :=
  root ++ "[" ++ ⟨quote :: written ++ [quote]⟩ ++ "]"

/-- What a key leads to in a mapping; where there is no such key, nothing is found. -/
def memberOf (entries : Entries Value) (root : Text) (segment : Segment) : Except Fault Value :=
  match entries.find? segment.key with
  | some value => .ok value
  | none => .error (.unresolved (Expression.reference root [segment]))

theorem units_memberSource (root key : Text) :
    (memberSource root key).units = root.units ++ CodeUnit.ofChar '.' :: key.units := by
  have hpoint : (("." : String) : Text).units = [CodeUnit.ofChar '.'] := by decide
  simp [memberSource, hpoint]

theorem units_quotedMemberSource (root : Text) (quote : CodeUnit) (written : List CodeUnit) :
    (quotedMemberSource root quote written).units =
      (root.units ++ [CodeUnit.ofChar '[', quote]) ++
        (written ++ [quote, CodeUnit.ofChar ']']) := by
  have hopening : (("[" : String) : Text).units = [CodeUnit.ofChar '['] := by decide
  have hclosing : (("]" : String) : Text).units = [CodeUnit.ofChar ']'] := by decide
  simp [quotedMemberSource, hopening, hclosing]

/-! ### One step into a mapping -/

theorem evaluate_member (h : scope.find? root = some (.mapping entries)) (segment : Segment) :
    Expression.evaluate scope (.path root [segment]) = memberOf entries root segment := by
  rw [Expression.evaluate, h]
  dsimp only [Expression.follow, Segment.read, memberOf]
  cases entries.find? segment.key <;> rfl

/-- The words of a variable and of one step are, between double braces, the step into what the
variable is bound to. -/
theorem resolve_of_writtenSteps (hvariable : Expression.literalOfName? root = none)
    (hbound : scope.find? root = some (.mapping entries)) {source : Text} {word : Word}
    {words : List Word} (hword : word.lexeme = .name root)
    (hsteps : Expression.WrittenSteps [segment] words)
    (hspaced : Spaced (word :: words) source.units)
    (hapart : ∀ u : CodeUnit, u.isBrace = true → ¬[u, u] <:+: source.units) :
    resolve scope (enclosed source) = memberOf entries root segment := by
  have hwords : Expression.Written 0 (.path root [segment]) (word :: words) :=
    .path hword hvariable hsteps
  have hread := read_enclosed_of_written hwords hspaced (hapart 0x7B rfl) (hapart 0x7D rfl)
  rw [resolve_of_read hread, evaluate_member hbound]

/-! ### Names and digits behind a point -/

theorem isBrace_of_isName (h : root.isName = true) : ∀ v ∈ root.units, v.isBrace = false :=
  fun v hv ↦ CodeUnit.isBrace_of_continuesName (Text.continuesName_of_isName h v hv)

theorem isBrace_of_isDigits (h : IsDigits key.units) : ∀ v ∈ key.units, v.isBrace = false :=
  fun _ hv ↦ IsNumeral.isBrace (.inl h) hv

theorem isBrace_of_mem_memberSource (hroot : root.isName = true)
    (hkey : ∀ v ∈ key.units, v.isBrace = false) :
    ∀ v ∈ (memberSource root key).units, v.isBrace = false := by
  rw [units_memberSource]
  refine List.forall_mem_append.mpr ⟨isBrace_of_isName hroot, ?_⟩
  exact List.forall_mem_cons.mpr ⟨by decide, hkey⟩

/-- The words of a member behind a point. -/
theorem spaced_memberSource (hroot : root.isName = true) {member : Word}
    (h : member.units = key.units) :
    Spaced [.ofName root hroot, .ofMark '.' (by decide), member] (memberSource root key).units := by
  have hunits : (memberSource root key).units =
      [Word.ofName root hroot, .ofMark '.' (by decide), member].flatMap
        fun word ↦ word.units ++ [] := by
    rw [units_memberSource]
    simp [Word.ofName, Word.ofMark, h]
  rw [hunits]
  exact spaced_flatMap [] (by simp) _

/-- A name behind a point names the member of this name. -/
theorem resolve_memberSource_name (hroot : root.isName = true)
    (hvariable : Expression.literalOfName? root = none)
    (hbound : scope.find? root = some (.mapping entries)) (hkey : key.isName = true) :
    resolve scope (enclosed (memberSource root key)) = memberOf entries root (.name key) := by
  have hsteps : Expression.WrittenSteps [.name key]
      [.ofMark '.' (by decide), .ofName key hkey] := .member rfl rfl .none
  have hplain := isBrace_of_mem_memberSource hroot (isBrace_of_isName hkey)
  exact resolve_of_writtenSteps hvariable hbound rfl hsteps (spaced_memberSource hroot rfl)
    fun u hu ↦ not_infix_of_plain hplain hu

/-- Digits behind a point name the member whose key is the text of their number. -/
theorem resolve_memberSource_digits (hroot : root.isName = true)
    (hvariable : Expression.literalOfName? root = none)
    (hbound : scope.find? root = some (.mapping entries)) (hkey : IsDigits key.units)
    (hnumber : Number.ofText? key = some x) (hinteger : x.isInteger = true) :
    resolve scope (enclosed (memberSource root key)) = memberOf entries root (.index x) := by
  have hsteps : Expression.WrittenSteps [.index x]
      [.ofMark '.' (by decide), ⟨.number x, key.units, .number (.inl hkey) hnumber⟩] :=
    .place rfl rfl hkey hinteger .none
  have hplain := isBrace_of_mem_memberSource hroot (isBrace_of_isDigits hkey)
  exact resolve_of_writtenSteps hvariable hbound rfl hsteps (spaced_memberSource hroot rfl)
    fun u hu ↦ not_infix_of_plain hplain hu

/-- Behind a point there has to be a name or an integer. -/
theorem ofTokens_of_isInteger_eq_false {variableToken point number : Token}
    (hroot : variableToken.lexeme = .name root) (hvariable : Expression.literalOfName? root = none)
    (hpoint : point.lexeme = .mark '.') (hnumber : number.lexeme = .number x)
    (hinteger : x.isInteger = false) :
    Expression.ofTokens [variableToken, point, number] =
      .error (.expectedName number.position) := by
  have hsegments : Expression.segments [point, number] =
      .error (.expectedName number.position) := by
    simp [Expression.segments, Expression.memberSegment, hpoint, hnumber, hinteger]
    rfl
  have hprimary : ∀ fuel, Expression.primary (fuel + 1) variableToken [point, number] =
      .error (.expectedName number.position) := by
    intro fuel
    simp [Expression.primary, hroot, hvariable, hsegments]
    rfl
  simp [Expression.ofTokens, Expression.additive, Expression.term, Expression.unary, hroot,
    hprimary]
  rfl

theorem isBlank_memberSource (hroot : root.isName = true) :
    (memberSource root key).isBlank = false := by
  obtain ⟨first, rest, rfl, hfirst, -⟩ := Text.units_of_isName hroot
  have hinked := CodeUnit.isBlank_of_continuesName (CodeUnit.continuesName_of_beginsName hfirst)
  rw [Text.isBlank, units_memberSource, List.cons_append, List.all_cons, hinked, Bool.false_and]

/-- More digits behind a point than a number can have are refused. -/
theorem resolve_memberSource_refused (scope : Scope) (hroot : root.isName = true)
    (hvariable : Expression.literalOfName? root = none) (hkey : IsDigits key.units)
    (hnumber : Number.ofText? key = some x) (hinteger : x.isInteger = false) :
    ∃ position, resolve scope (enclosed (memberSource root key)) =
      .error (.template (enclosed (memberSource root key)) (.expectedName position)) := by
  obtain ⟨member, hlexeme, hunits⟩ : ∃ member : Word, member.lexeme = .number x ∧
      member.units = key.units := ⟨⟨.number x, key.units, .number (.inl hkey) hnumber⟩, rfl, rfl⟩
  have hlegible : Legible false [.ofName root hroot, .ofMark '.' (by decide), member] := by
    refine (legible_name rfl).mpr ⟨breaks_mark rfl, (legible_mark rfl).mpr
      ((legible_number hlexeme).mpr ⟨fun _ h ↦ absurd h (by simp), ?_, trivial⟩)⟩
    rw [beq_self_eq_true, if_pos rfl, hunits]
    exact hkey
  obtain ⟨tokens, htokens, hlexemes⟩ :=
    Token.scanAll_spaced (spaced_memberSource hroot hunits) false 0 hlegible
  obtain ⟨first, others, rfl, hfirst, hothers⟩ := List.map_eq_cons_iff.mp hlexemes
  obtain ⟨point, others, rfl, hpoint, hothers⟩ := List.map_eq_cons_iff.mp hothers
  obtain ⟨last, others, rfl, hlast, hothers⟩ := List.map_eq_cons_iff.mp hothers
  obtain rfl := List.map_eq_nil_iff.mp hothers
  have hread : Expression.read (memberSource root key) = .error (.expectedName last.position) := by
    rw [Expression.read, Token.tokenize, htokens]
    exact ofTokens_of_isInteger_eq_false hfirst hvariable hpoint (hlast.trans hlexeme) hinteger
  have hplain := isBrace_of_mem_memberSource hroot (isBrace_of_isDigits hkey)
  refine ⟨last.position, ?_⟩
  rw [resolve, if_pos (hasPlaceholder_enclosed _), read_enclosed_of_error hread
    (isBlank_memberSource hroot) (fun v hv ↦ hplain v (List.mem_of_getLast? hv))
    (not_infix_of_plain hplain rfl) (not_infix_of_plain hplain rfl)]
  rfl

/-! ### Quoted keys in brackets -/

/-- A key between quotes names the member with this key, if the braces of its spelling are not taken
for those of a placeholder. -/
theorem resolve_quotedMemberSource (hroot : root.isName = true)
    (hvariable : Expression.literalOfName? root = none)
    (hbound : scope.find? root = some (.mapping entries)) (hquote : quote.IsQuote)
    (hwritten : Escaped quote key.units written)
    (hapart : ∀ u : CodeUnit, u.isBrace = true → ¬[u, u] <:+: written) :
    resolve scope (enclosed (quotedMemberSource root quote written)) =
      memberOf entries root (.name key) := by
  let words : List Word := [.ofName root hroot, .ofMark '[' (by decide),
    ⟨.quoted key, _, .quoted hquote hwritten⟩, .ofMark ']' (by decide)]
  have hunits : (quotedMemberSource root quote written).units =
      words.flatMap fun word ↦ word.units ++ [] := by
    rw [units_quotedMemberSource]
    simp [words, Word.ofName, Word.ofMark]
  have hspaced : Spaced words (quotedMemberSource root quote written).units := by
    rw [hunits]
    exact spaced_flatMap [] (by simp) words
  refine resolve_of_writtenSteps hvariable hbound rfl (.quoted rfl rfl rfl .none) hspaced
    fun u hu hoccurs ↦ hapart u hu ?_
  have hmarks : ∀ v ∈ [CodeUnit.ofChar '[', CodeUnit.ofChar ']', quote], v ≠ u := by
    intro v hv
    rintro rfl
    simp only [List.mem_cons, List.not_mem_nil, or_false] at hv
    rcases hv with rfl | rfl | rfl
    · exact absurd hu (by decide)
    · exact absurd hu (by decide)
    · rw [hquote.isBrace] at hu
      cases hu
  rw [units_quotedMemberSource] at hoccurs
  refine infix_of_append_plain ?_ (infix_of_plain_append ?_ hoccurs)
  · simp only [List.mem_cons, List.not_mem_nil, or_false, not_or]
    exact ⟨(hmarks quote (by simp)).symm, (hmarks _ (by simp)).symm⟩
  · simp only [List.mem_append, List.mem_cons, List.not_mem_nil, or_false, not_or]
    refine ⟨fun hmem ↦ ?_, (hmarks _ (by simp)).symm, (hmarks quote (by simp)).symm⟩
    rw [isBrace_of_isName hroot u hmem] at hu
    cases hu

/-- Every key has a spelling in which no two like braces stand in a row. -/
theorem exists_apart_escaped (hquote : quote.IsQuote) (content : List CodeUnit) :
    ∃ written, Escaped quote content written ∧
      ∀ u : CodeUnit, u.isBrace = true → ¬[u, u] <:+: written := by
  obtain ⟨written, hwritten⟩ := exists_escaped hquote content
  obtain ⟨respelled, hunits, hrespelled⟩ := hwritten.parted hquote [] 0
  refine ⟨respelled, hrespelled, fun u hu hoccurs ↦ ?_⟩
  refine (Text.not_infix_parted (written ++ [quote]) hu 0).1 ?_
  rw [hunits]
  exact List.infix_append_of_infix_left hoccurs

/-! ### Digits that are the text of their number -/

/-- Digits that are no more than the safe places of a number denote an integer. -/
theorem isInteger_of_safe (hkey : IsDigits key.units)
    (hsafe : key.units.length ≤ Magnitude.safePlaces) (hnumber : Number.ofText? key = some x) :
    x.isInteger = true := by
  obtain rfl := Option.some.inj ((Number.ofText?_digits hkey).symm.trans hnumber)
  have hpow : 10 ^ key.units.length ≤ 10 ^ Magnitude.safePlaces :=
    Nat.pow_le_pow_right (by omega) hsafe
  exact Number.isInteger_of_lt false (Nat.lt_of_lt_of_le (Number.digitsValue_lt _ hkey.2) hpow)

/-- Digits that are the text of their number denote an integer. -/
theorem isInteger_of_toText (hkey : IsDigits key.units) (hnumber : Number.ofText? key = some x)
    (htext : x.toText = key) : x.isInteger = true := by
  obtain rfl := Option.some.inj ((Number.ofText?_digits hkey).symm.trans hnumber)
  rcases Number.isInteger_or_infinite false (Number.digitsValue 10 key.units) with h | h
  · exact h
  · rw [h] at htext
    rw [← htext] at hkey
    exact absurd hkey (by decide)

/-- The digits of a natural number below 2 to the power of 53 are the text of their number. -/
theorem exists_toText_ofNat {n : Nat} (h : n < 2 ^ 53) :
    ∃ x, Number.ofText? (Text.ofNat n) = some x ∧ x.toText = Text.ofNat n := by
  have htext := Number.toText_ofNat h
  refine ⟨(Number.ofNat n).plain, ?_, (Number.toText_plain _).trans htext⟩
  rw [← htext, Number.ofText?_toText (Number.ofNat_isFinite (Nat.le_of_lt h))]

variable {value : Value}

theorem memberOf_eq_ok (h : entries.find? segment.key = some value) (root : Text) :
    memberOf entries root segment = .ok value := by
  rw [memberOf, h]

/-- A key is read as it is written between quotes in brackets, behind any escapes, as long as no two
like braces stand in a row; every key has such a spelling between either quotes. Behind a point it
is read as it is written when it is a name. Digits behind a point are read as a number, and the
member is the one whose key is the text of this number: the digits themselves when they are this
text, as those of every natural number below 2 to the power of 53 are. Digits that are too many for
a number are refused. -/
theorem resolve_member (hroot : root.isName = true)
    (hvariable : Expression.literalOfName? root = none)
    (hbound : scope.find? root = some (.mapping entries))
    (hmember : entries.find? key = some value) :
    (key.isName = true → resolve scope (enclosed (memberSource root key)) = .ok value) ∧
    (∀ quote written, CodeUnit.IsQuote quote → Escaped quote key.units written →
      (∀ u : CodeUnit, u.isBrace = true → ¬[u, u] <:+: written) →
      resolve scope (enclosed (quotedMemberSource root quote written)) = .ok value) ∧
    (∀ quote, CodeUnit.IsQuote quote → ∃ written, Escaped quote key.units written ∧
      ∀ u : CodeUnit, u.isBrace = true → ¬[u, u] <:+: written) ∧
    (IsDigits key.units → ∃ x, Number.ofText? key = some x ∧
      (key.units.length ≤ Magnitude.safePlaces → x.isInteger = true) ∧
      (x.isInteger = true →
        resolve scope (enclosed (memberSource root key)) = memberOf entries root (.index x)) ∧
      (x.isInteger = false → ∃ position, resolve scope (enclosed (memberSource root key)) =
        .error (.template (enclosed (memberSource root key)) (.expectedName position))) ∧
      (x.toText = key → resolve scope (enclosed (memberSource root key)) = .ok value)) ∧
    ∀ n < 2 ^ 53, key = Text.ofNat n →
      resolve scope (enclosed (memberSource root key)) = .ok value := by
  have hcanonical : ∀ x, IsDigits key.units → Number.ofText? key = some x → x.toText = key →
      resolve scope (enclosed (memberSource root key)) = .ok value := by
    intro x hkey hnumber htext
    rw [resolve_memberSource_digits hroot hvariable hbound hkey hnumber
      (isInteger_of_toText hkey hnumber htext)]
    exact memberOf_eq_ok (by rwa [Segment.key, htext]) root
  refine ⟨fun hkey ↦ ?_, fun quote written hquote hwritten hapart ↦ ?_,
    fun quote hquote ↦ exists_apart_escaped hquote key.units, fun hkey ↦ ?_, fun n hn hkey ↦ ?_⟩
  · rw [resolve_memberSource_name hroot hvariable hbound hkey]
    exact memberOf_eq_ok hmember root
  · rw [resolve_quotedMemberSource hroot hvariable hbound hquote hwritten hapart]
    exact memberOf_eq_ok hmember root
  · have hnumber := Number.ofText?_digits hkey
    exact ⟨_, hnumber, fun hsafe ↦ isInteger_of_safe hkey hsafe hnumber,
      resolve_memberSource_digits hroot hvariable hbound hkey hnumber,
      resolve_memberSource_refused scope hroot hvariable hkey hnumber, hcanonical _ hkey hnumber⟩
  · subst hkey
    obtain ⟨x, hnumber, htext⟩ := exists_toText_ofNat hn
    exact hcanonical x (Number.isDigits_ofNat n) hnumber htext

/-- Two keys that are digits of the same number. -/
def sevens : Entries Value := [("007", .text "agent"), ("7", .text "number")]

/-- Each of the two is read by the key that it has, the first only between quotes. -/
theorem resolve_member_sevens :
    let scope := Scope.ofEntries [("rows", .mapping sevens)]
    resolve scope (enclosed (memberSource "rows" "7")) = .ok (.text "number") ∧
      resolve scope (enclosed (quotedMemberSource "rows" '"' ("007" : Text).units)) =
        .ok (.text "agent") := by
  intro scope
  have hseven : ("7" : Text) = Text.ofNat 7 := by decide
  have hwritten : Escaped '"' ("007" : Text).units ("007" : Text).units :=
    .plain (by decide) (by decide) (.plain (by decide) (by decide)
      (.plain (by decide) (by decide) .nil))
  have hdigits : IsDigits ("007" : Text).units := by decide
  have hapart : ∀ u : CodeUnit, u.isBrace = true → ¬[u, u] <:+: ("007" : Text).units :=
    fun u hu ↦ not_infix_of_plain (isBrace_of_isDigits hdigits) hu
  exact ⟨(resolve_member (by decide) (by decide) rfl rfl).2.2.2.2 7 (by decide) hseven,
    (resolve_member (by decide) (by decide) rfl rfl).2.1 '"' _ (.inl rfl) hwritten hapart⟩

/-- Behind a point, digits with zeros in front name the member without them; and two closing braces
between quotes end the placeholder. -/
theorem not_forall_resolve_member :
    (¬∀ (scope : Scope) (root key : Text) (entries : Entries Value) (value : Value),
      root.isName = true → Expression.literalOfName? root = none →
      scope.find? root = some (.mapping entries) → entries.find? key = some value →
      IsDigits key.units → resolve scope (enclosed (memberSource root key)) = .ok value) ∧
    ¬∀ (scope : Scope) (root key : Text) (entries : Entries Value) (value : Value)
      (quote : CodeUnit) (written : List CodeUnit), root.isName = true →
      Expression.literalOfName? root = none → scope.find? root = some (.mapping entries) →
      entries.find? key = some value → quote.IsQuote → Escaped quote key.units written →
      resolve scope (enclosed (quotedMemberSource root quote written)) = .ok value := by
  constructor
  · intro hall
    let scope := Scope.ofEntries [("rows", .mapping sevens)]
    have hdigits : IsDigits ("007" : Text).units := by decide
    have hseven : ("7" : Text) = Text.ofNat 7 := by decide
    obtain ⟨x, hnumber, htext⟩ := exists_toText_ofNat (show 7 < 2 ^ 53 by decide)
    rw [← hseven] at hnumber htext
    have hshort : IsDigits ("7" : Text).units := by decide
    have hsame : Number.ofText? "007" = some x := by
      have hvalue : Number.digitsValue 10 ("007" : Text).units =
          Number.digitsValue 10 ("7" : Text).units := by decide
      rw [← hnumber]
      exact (Number.ofText?_digits hdigits).trans (hvalue ▸ (Number.ofText?_digits hshort).symm)
    have hinteger := isInteger_of_toText hshort hnumber htext
    have hother : resolve scope (enclosed (memberSource "rows" "007")) = .ok (.text "number") := by
      rw [resolve_memberSource_digits (by decide) (by decide) rfl hdigits hsame hinteger]
      exact memberOf_eq_ok (by rw [Segment.key, htext]; rfl) "rows"
    rw [hall scope "rows" "007" sevens (.text "agent") (by decide) (by decide) rfl rfl hdigits]
      at hother
    exact absurd (Value.text.inj (Except.ok.inj hother)) (by decide)
  · intro hall
    let braces : Entries Value := [("\x7d\x7d", .text "closed")]
    have hwritten : Escaped '"' ("\x7d\x7d" : Text).units ("\x7d\x7d" : Text).units :=
      .plain (by decide) (by decide) (.plain (by decide) (by decide) .nil)
    have hresolve := hall (Scope.ofEntries [("rows", .mapping braces)]) "rows" "\x7d\x7d" braces
      (.text "closed") '"' _ (by decide) (by decide) rfl rfl (.inl rfl) hwritten
    have hrefused : (interpolate (Scope.ofEntries [("rows", .mapping braces)])
        (enclosed (quotedMemberSource "rows" '"' ("\x7d\x7d" : Text).units))).toOption = none := by
      decide +kernel
    rw [interpolate, hresolve] at hrefused
    cases hrefused

end Template

end BrowserFlow
