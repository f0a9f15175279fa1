import BrowserFlow.Document.Issue
import BrowserFlow.Text.Blank
import BrowserFlow.Value.Normal

/-!
Checked reading. Reading a part of a document gives the part, the issues found,
or both: a part may be readable and still have issues, as when a text is empty or
a member is unknown, and then what contains it can be read as well. All issues
are reported, in the order of the members. Of alternatives the first without
issues counts, else the first that can be read.
-/

set_option autoImplicit false
set_option relaxedAutoImplicit false

namespace BrowserFlow

/-- What reading gives. -/
structure Checked (α : Type) where
  /-- The part, if it can be read. -/
  value? : Option α
  /-- The issues found. -/
  issues : List Issue

namespace Checked

variable {α β : Type}

/-- A part without issues. -/
def ok (a : α) : Checked α := ⟨some a, []⟩

/-- A part that cannot be read. -/
def refused (flaw : Flaw) : Checked α := ⟨none, [⟨[], flaw⟩]⟩

/-- Whether there are no issues. -/
def isClean (c : Checked α) : Bool := c.value?.isSome && c.issues.isEmpty

/-- A part changed. -/
def map (f : α → β) (c : Checked α) : Checked β := ⟨c.value?.map f, c.issues⟩

/-- A function and its argument, with the issues of both. -/
def seq (f : Checked (α → β)) (c : Checked α) : Checked β :=
  ⟨f.value?.bind fun g ↦ c.value?.map g, f.issues ++ c.issues⟩

instance : Functor Checked := ⟨fun f c ↦ map f c, fun b c ↦ map (fun _ ↦ b) c⟩
instance : Seq Checked := ⟨fun f c ↦ seq f (c ())⟩

/-- The issues moved below a step of a path. -/
def within (step : PathStep) (c : Checked α) : Checked α :=
  { c with issues := c.issues.map fun issue ↦ { issue with path := step :: issue.path } }

/-- A further issue when a part that can be read does not pass a test. -/
def require (test : α → Bool) (flaw : Flaw) (c : Checked α) : Checked α :=
  match c.value? with
  | some a => if test a then c else { c with issues := c.issues ++ [⟨[], flaw⟩] }
  | none => c

/-- The first of the alternatives without issues, else the first that can be read. -/
def firstOf (alternatives : List (Checked α)) : Checked α :=
  match alternatives.find? isClean with
  | some c => c
  | none =>
    match alternatives.find? (·.value?.isSome) with
    | some c => c
    | none => refused .noAlternative

/-- Parts in a row, with the issues of all. -/
def list : List (Checked α) → Checked (List α)
  | [] => ok []
  | c :: rest => seq (map List.cons c) (list rest)

/-- Parts in a row, each in its place. -/
def items (parts : List (Checked α)) : Checked (List α) :=
  list (parts.mapIdx fun index c ↦ c.within (.index index))

end Checked

namespace Datum

/-- The name of the type of a datum. -/
def typeName : Datum → Text
  | .absent => "undefined"
  | .null => "null"
  | .bool _ => "boolean"
  | .number x => if x = .nan then "nan" else "number"
  | .text _ => "string"
  | .integer _ => "bigint"
  | .symbol _ => "symbol"
  | .function => "function"
  | .date _ => "date"
  | .sequence _ => "array"
  | .map => "map"
  | .set => "set"
  | .bytes _ => "object"
  | .buffer _ => "object"
  | .object _ _ => "object"
  | .pattern _ => "object"
  | .failure _ => "object"

/-- Whether a datum is read as an object with members. -/
def isObject : Datum → Bool
  | .bytes _ => true
  | .buffer _ => true
  | .object _ _ => true
  | .pattern _ => true
  | .failure _ => true
  | _ => false

/-- The member of an object under a key, its own or that of its ancestor. -/
def member (d : Datum) (key : Text) : Datum :=
  match d with
  | .object own inherited =>
    match Entries.find? own key with
    | some x => x
    | none => (Entries.find? inherited key).getD .absent
  | _ => .absent

private theorem sizeOf_find?_lt {entries : List (Text × Datum)} {key : Text} {x : Datum}
    (h : Entries.find? entries key = some x) : sizeOf x < sizeOf entries := by
  induction entries with
  | nil => simp [Entries.find?] at h
  | cons entry rest ih =>
    obtain ⟨name, value⟩ := entry
    simp only [Entries.find?] at h
    split at h
    · simp only [Option.some.injEq] at h
      subst h
      simp only [List.cons.sizeOf_spec, Prod.mk.sizeOf_spec]
      omega
    · have := ih h
      simp only [List.cons.sizeOf_spec]
      omega

/-- A member that is there is smaller than its object. -/
theorem sizeOf_member_lt {d : Datum} {key : Text} (h : d.member key ≠ .absent) :
    sizeOf (d.member key) < sizeOf d := by
  cases d with
  | object own inherited =>
    simp only [member] at h ⊢
    split
    · next x hx =>
      have := sizeOf_find?_lt hx
      simp only [object.sizeOf_spec]
      omega
    · next hnone =>
      simp only [hnone] at h
      cases hx : Entries.find? inherited key with
      | none => simp [hx] at h
      | some x =>
        have := sizeOf_find?_lt hx
        simp only [Option.getD_some, object.sizeOf_spec]
        omega
  | _ => simp [member] at h

/-- An item of a member that is a sequence is smaller than the object. -/
theorem sizeOf_item_lt {d item : Datum} {key : Text} {items : List Datum}
    (h : d.member key = .sequence items) (hitem : item ∈ items) : sizeOf item < sizeOf d := by
  have hmember : sizeOf (d.member key) < sizeOf d := sizeOf_member_lt (by simp [h])
  have := List.sizeOf_lt_of_mem hitem
  rw [h] at hmember
  simp only [sequence.sizeOf_spec] at hmember
  omega

end Datum

namespace Checked

variable {α β : Type}

/-- A text, possibly without the white space at its ends, that may have to be there. -/
def text (trimmed nonempty : Bool) (d : Datum) : Checked Text :=
  match d with
  | .text t =>
    let t := if trimmed then t.trim else t
    require (fun t ↦ !nonempty || !t.isEmpty) .emptyText (ok t)
  | other => refused (.wrongType "string" other.typeName)

/-- A number that is one. -/
def number (d : Datum) : Checked Number :=
  match d with
  | .number x => if x = .nan then refused (.wrongType "number" "nan") else ok x
  | other => refused (.wrongType "number" other.typeName)

/-- A truth value. -/
def bool (d : Datum) : Checked Bool :=
  match d with
  | .bool b => ok b
  | other => refused (.wrongType "boolean" other.typeName)

/-- One of several words with a meaning each. -/
def word (options : List (Text × α)) (d : Datum) : Checked α :=
  match d with
  | .text t =>
    match Entries.find? options t with
    | some a => ok a
    | none => refused (.notListed (options.map Prod.fst) t)
  | other => refused (.wrongType (Flaw.quotedChoice (options.map Prod.fst)) other.typeName)

/-- A part that may be absent. -/
def optional (read : Datum → Checked α) (d : Datum) : Checked (Option α) :=
  if d.isAbsent then ok none else map some (read d)

/-- A member of an object. -/
def field (d : Datum) (key : Text) (read : Datum → Checked α) : Checked α :=
  (read (d.member key)).within (.key key)

/-- The members of an object with a form: other members are unknown to it. -/
def form (keys : List Text) (d : Datum) (members : Checked α) : Checked α :=
  if d.isObject then
    let unknown := (d.listed.map Prod.fst).filter fun key ↦ !keys.contains key
    if unknown.isEmpty then members
    else { members with issues := members.issues ++ [⟨[], .unknownKeys unknown⟩] }
  else refused (.wrongType "object" d.typeName)

/-- A sequence with its items read. -/
def sequence (read : Datum → Checked α) (d : Datum) : Checked (List α) :=
  match d with
  | .sequence ds => items (ds.map read)
  | other => refused (.wrongType "array" other.typeName)

/-- The issue of an empty list, which comes before those of its items. -/
def nonempty (c : Checked (List α)) : Checked (List α) :=
  match c.value? with
  | some [] => { c with issues := ⟨[], .emptyList⟩ :: c.issues }
  | _ => c

/-- A free mapping with its members read. -/
def record (read : Datum → Checked α) (d : Datum) : Checked (Entries α) :=
  if d.isObject then
    map (fun pairs ↦ pairs.foldl (fun all (key, a) ↦ all.assign key a) [])
      (list (d.listed.map fun (key, x) ↦ map (fun a ↦ (key, a)) ((read x).within (.key key))))
  else refused (.wrongType "object" d.typeName)

end Checked

end BrowserFlow
