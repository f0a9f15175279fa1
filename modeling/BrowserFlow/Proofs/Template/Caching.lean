import BrowserFlow.Template.Cache

/-!
Templates that are read through a cache. A cache is sound when it holds each of its
templates once, with the parts that the template has, and no more of them than its
limit. The empty cache is sound, and a sound cache answers as if it were not there
and stays sound, also when it is emptied before a template is kept and when a
template cannot be read (`Cache.IsSound.read`). So whatever was asked before,
everything that is read through a cache is read as without one
(`Cache.readAll_invisible`).
-/

set_option autoImplicit false
set_option relaxedAutoImplicit false

namespace BrowserFlow.Template.Cache

/-- The answers to templates that are read one after the other through a cache, and the cache
behind them. -/
def readAll (cache : Cache) : List Text → List (Except Fault (List Part)) × Cache
  | [] => ([], cache)
  | source :: rest =>
    let (answer, next) := cache.read source
    let (others, last) := next.readAll rest
    (answer :: others, last)

/-- The value that a text stands for when its parts are read through a cache, and the cache behind
it. -/
def resolve (cache : Cache) (scope : Scope) (source : Text) : Except Fault Value × Cache :=
  if hasPlaceholder source then
    let (answer, next) := cache.read source
    (answer.bind (evaluateParts scope), next)
  else (.ok (.text source), cache)

/-- A cache that holds nothing but templates with their own parts, each once, and not more of them
than its limit. -/
structure IsSound (cache : Cache) : Prop where
  parsed : ∀ source parts, (source, parts) ∈ cache.entries → Template.read source = .ok parts
  unique : (cache.entries.map Prod.fst).Nodup
  bounded : cache.entries.length ≤ limit

variable {cache : Cache} {source : Text} {parts : List Part}

theorem isSound_empty : empty.IsSound := ⟨by simp [empty], List.nodup_nil, Nat.zero_le _⟩

/-! ### One template -/

theorem mem_of_find? (h : cache.find? source = some parts) : (source, parts) ∈ cache.entries := by
  obtain ⟨⟨key, found⟩, hfound, rfl⟩ := Option.map_eq_some_iff.mp h
  have hkey : key = source := by simpa using List.find?_some hfound
  exact hkey ▸ List.mem_of_find?_eq_some hfound

theorem notMem_of_find? (h : cache.find? source = none) :
    source ∉ cache.entries.map Prod.fst := by
  intro hmem
  obtain ⟨entry, hentry, rfl⟩ := List.mem_map.mp hmem
  have hnone := List.find?_eq_none.mp (Option.map_eq_none_iff.mp h) entry hentry
  simp at hnone

theorem find?_keep (cache : Cache) (source : Text) (parts : List Part) :
    (cache.keep source parts).find? source = some parts := by
  unfold keep find?
  split <;> simp

/-- A sound cache stays sound with a template that it does not hold, be it full or not. -/
theorem IsSound.keep (h : cache.IsSound) (hnew : cache.find? source = none)
    (hread : Template.read source = .ok parts) : (cache.keep source parts).IsSound := by
  unfold Cache.keep
  have hone : 1 ≤ limit := by decide
  by_cases hfull : limit ≤ cache.entries.length
  · rw [if_pos hfull]
    exact ⟨by simp [hread], by simp, hone⟩
  · rw [if_neg hfull]
    refine ⟨fun key found hfound ↦ ?_, List.nodup_cons.mpr ⟨notMem_of_find? hnew, h.unique⟩,
      Nat.lt_of_not_le hfull⟩
    rcases List.mem_cons.mp hfound with hpair | hfound
    · obtain ⟨rfl, rfl⟩ := Prod.mk.inj hpair
      exact hread
    · exact h.parsed key found hfound

/-- A template read through a sound cache has the answer that it has without one. Behind it the
cache is sound, and it holds the template just when it can be read. -/
theorem IsSound.read (h : cache.IsSound) (source : Text) :
    (cache.read source).1 = Template.read source ∧ (cache.read source).2.IsSound ∧
      (cache.read source).2.find? source = (Template.read source).toOption := by
  unfold Cache.read
  cases hfound : cache.find? source with
  | some parts =>
    have hread := h.parsed source parts (mem_of_find? hfound)
    exact ⟨hread.symm, h, by rw [hfound, hread]; rfl⟩
  | none =>
    cases hread : Template.read source with
    | ok parts => exact ⟨rfl, h.keep hfound hread, find?_keep cache source parts⟩
    | error fault => exact ⟨rfl, h, hfound⟩

/-! ### Templates one after the other -/

/-- What is read through a sound cache, one after the other, is read as without one. -/
theorem IsSound.readAll (h : cache.IsSound) (sources : List Text) :
    (cache.readAll sources).1 = sources.map Template.read ∧
      (cache.readAll sources).2.IsSound := by
  induction sources generalizing cache with
  | nil => exact ⟨rfl, h⟩
  | cons source rest ih =>
    obtain ⟨hanswer, hnext, -⟩ := h.read source
    obtain ⟨hothers, hlast⟩ := ih hnext
    refine ⟨?_, hlast⟩
    rw [List.map_cons, ← hanswer, ← hothers]
    rfl

/-- A text resolved through a sound cache stands for what it stands for without one. -/
theorem IsSound.resolve (h : cache.IsSound) (scope : Scope) (source : Text) :
    (cache.resolve scope source).1 = Template.resolve scope source ∧
      (cache.resolve scope source).2.IsSound := by
  unfold Cache.resolve Template.resolve
  obtain ⟨hanswer, hnext, -⟩ := h.read source
  by_cases hplaceholder : hasPlaceholder source = true
  · rw [if_pos hplaceholder, if_pos hplaceholder]
    exact ⟨congrArg (·.bind (evaluateParts scope)) hanswer, hnext⟩
  · rw [if_neg hplaceholder, if_neg hplaceholder]
    exact ⟨rfl, h⟩

/-- Whatever templates are read one after the other through one cache, each has the answer that it
has without a cache, be it parts or a fault. At every point of such a history the cache holds no
template with other parts than its own, none twice, and not more of them than its limit; the next
template is kept in it just when it can be read; and a text is resolved as without a cache. -/
theorem readAll_invisible (sources : List Text) :
    (empty.readAll sources).1 = sources.map Template.read ∧
      (empty.readAll sources).2.IsSound ∧
      ∀ source, ((empty.readAll sources).2.read source).1 = Template.read source ∧
        ((empty.readAll sources).2.read source).2.find? source =
          (Template.read source).toOption ∧
        ∀ scope, ((empty.readAll sources).2.resolve scope source).1 =
          Template.resolve scope source := by
  obtain ⟨hanswers, hsound⟩ := isSound_empty.readAll sources
  refine ⟨hanswers, hsound, fun source ↦ ?_⟩
  obtain ⟨hanswer, -, hkept⟩ := hsound.read source
  exact ⟨hanswer, hkept, fun scope ↦ (hsound.resolve scope source).1⟩

end BrowserFlow.Template.Cache
