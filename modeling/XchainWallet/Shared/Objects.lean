import Mathlib.Logic.Function.Basic

/-!
# Records whose properties are shared objects

A record holds some of its properties in place and refers to others in a store, so two records can share an
object. `Record.read` is what its holder sees. A change of a record or of an object it refers to reads as
that change (`read_set`, `read_write`), and a write to an object that a record does not refer to leaves what
it reads (`read_update_of_not_refers`).
-/

namespace Shared

variable {N R V : Type*}

/-- A property: a value in place, or a reference to an object. -/
inductive Property (R V : Type*) where
  | plain (v : V)
  | object (r : R)
  deriving DecidableEq

/-- What is handed out: a value, or a record of properties by their names. -/
inductive Record (N R V : Type*) where
  | value (v : V)
  | record (props : N → Property R V)

/-- A change that the holder of a record makes: it sets a property, or writes to the object in one. -/
inductive Change (N V : Type*) where
  | set (name : N) (value : Property V V)
  | write (name : N) (v : V)

def Property.read (store : R → V) : Property R V → Property V V
  | .plain v => .plain v
  | .object r => .object (store r)

/-- What the holder of a record sees. -/
def Record.read (store : R → V) : Record N R V → Record N V V
  | .value v => .value v
  | .record props => .record fun name => (props name).read store

/-- The record has the object `r` in the property `name`. -/
def Record.HasObject (r : R) (name : N) : Record N R V → Prop
  | .value _ => False
  | .record props => props name = .object r

/-- The record has the object `r`. -/
def Record.Refers (r : R) (res : Record N R V) : Prop := ∃ name, res.HasObject r name

/-- The object in a property. -/
def Record.object? (name : N) : Record N R V → Option R
  | .value _ => none
  | .record props =>
    match props name with
    | .plain _ => none
    | .object r => some r

variable {res : Record N R V}

theorem Record.object?_eq_some {r : R} {name : N} :
    res.object? name = some r ↔ res.HasObject r name := by
  cases res with
  | value v => exact ⟨nofun, False.elim⟩
  | record props =>
    simp only [object?, HasObject]
    cases props name with
    | plain v => exact ⟨nofun, nofun⟩
    | object s => exact ⟨fun h => congrArg _ (Option.some.inj h), fun h => by cases h; rfl⟩

/-- **Frame.** What a record reads depends on the objects it refers to only. -/
theorem Record.read_congr {store store' : R → V} (h : ∀ r, res.Refers r → store' r = store r) :
    res.read store' = res.read store := by
  cases res with
  | value v => rfl
  | record props =>
    simp only [read, Record.record.injEq]
    funext name
    cases hp : props name with
    | plain v => rfl
    | object r => exact congrArg Property.object (h r ⟨name, hp⟩)

variable {store : R → V}

/-- A write to an object that the record does not have changes nothing in what it reads. -/
theorem Record.read_update_of_not_refers [DecidableEq R] {r : R} {v : V} (h : ¬res.Refers r) :
    res.read (Function.update store r v) = res.read store :=
  read_congr fun s hs => Function.update_of_ne (show s ≠ r from fun hsr => h (hsr ▸ hs)) _ _

variable [DecidableEq N]

/-- The change as its maker sees it. -/
def Change.apply (res : Record N V V) (c : Change N V) : Record N V V :=
  match res with
  | .value v => .value v
  | .record props =>
    match c with
    | .set name value => .record (Function.update props name value)
    | .write name v =>
      match props name with
      | .plain _ => .record props
      | .object _ => .record (Function.update props name (.object v))

/-- The record after one of its properties was set. -/
def Record.set (res : Record N R V) (name : N) (value : Property R V) : Record N R V :=
  match res with
  | .value v => .value v
  | .record props => .record (Function.update props name value)

/-- A property that is set reads as what it was set to. -/
theorem Record.read_set {name : N} {value : Property R V} :
    (res.set name value).read store = Change.apply (res.read store) (.set name (value.read store)) := by
  cases res with
  | value v => rfl
  | record props =>
    simp only [set, read, Change.apply, Record.record.injEq]
    funext other
    rcases eq_or_ne other name with rfl | hne
    · simp only [Function.update_self]
    · simp only [Function.update_of_ne hne]

/-- A record has the objects it had, and the one that a property was set to. -/
theorem Record.hasObject_of_set {r : R} {name other : N} {value : Property R V}
    (h : (res.set name value).HasObject r other) :
    res.HasObject r other ∨ other = name ∧ value = .object r := by
  cases res with
  | value v => exact h.elim
  | record props =>
    simp only [set, HasObject] at h ⊢
    rcases eq_or_ne other name with rfl | hne
    · rw [Function.update_self] at h
      exact .inr ⟨rfl, h⟩
    · rw [Function.update_of_ne hne] at h
      exact .inl h

/-- A write to the object in a property reads as that write, where no other property has the object. -/
theorem Record.read_write [DecidableEq R] {name : N} {r : R} {v : V} (hr : res.HasObject r name)
    (honly : ∀ other, res.HasObject r other → other = name) :
    res.read (Function.update store r v) = Change.apply (res.read store) (.write name v) := by
  cases res with
  | value v => exact hr.elim
  | record props =>
    have hname : props name = .object r := hr
    simp only [read, Change.apply, hname, Property.read, Record.record.injEq]
    funext other
    rcases eq_or_ne other name with rfl | hne
    · simp only [hname, Function.update_self]
    · rw [Function.update_of_ne hne]
      cases hp : props other with
      | plain v => rfl
      | object s =>
        have hs : s ≠ r := fun hsr => hne (honly other (hsr ▸ hp))
        simp only [Function.update_of_ne hs]

/-- A write to a property that holds no object is no change. -/
theorem Change.apply_write_of_object?_eq_none {name : N} {v : V} (h : res.object? name = none) :
    Change.apply (res.read store) (.write name v) = res.read store := by
  cases res with
  | value v => rfl
  | record props =>
    simp only [Record.object?] at h
    cases hp : props name with
    | plain v => simp only [Record.read, Change.apply, hp, Property.read]
    | object r => simp only [hp, reduceCtorEq] at h

end Shared
