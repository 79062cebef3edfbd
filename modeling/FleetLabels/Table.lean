/-!
    Tables.

    A table holds one value for each of its keys and remembers the order in which the keys came.
    `set` overwrites the value of a key in place and puts a new key at the end. -/

namespace FleetLabels

structure Table (κ α : Type) where
  entries : List (κ × α)
  deriving DecidableEq, Repr

namespace Table

variable {κ α β : Type} [DecidableEq κ]

instance : Inhabited (Table κ α) := ⟨⟨[]⟩⟩

def empty : Table κ α := ⟨[]⟩

/-- The value of the first of the entries with a key. -/
def find? (key : κ) : List (κ × α) → Option α
  | [] => none
  | (k, v) :: rest => if k = key then some v else find? key rest

def get? (t : Table κ α) (key : κ) : Option α := find? key t.entries

def contains (t : Table κ α) (key : κ) : Bool := (t.get? key).isSome

/-- The entries after a key was given a value. -/
def put (key : κ) (value : α) : List (κ × α) → List (κ × α)
  | [] => [(key, value)]
  | (k, v) :: rest => if k = key then (key, value) :: rest else (k, v) :: put key value rest

def set (t : Table κ α) (key : κ) (value : α) : Table κ α := ⟨put key value t.entries⟩

/-- The table in which a key has what `f` makes of its value so far. -/
def alter (t : Table κ α) (key : κ) (f : Option α → α) : Table κ α := t.set key (f (t.get? key))

/-- The table of pairs of which a later one replaces an earlier one with its key. -/
def ofList (pairs : List (κ × α)) : Table κ α := pairs.foldl (fun t p => t.set p.1 p.2) empty

omit [DecidableEq κ] in
def keys (t : Table κ α) : List κ := t.entries.map (·.1)

omit [DecidableEq κ] in
def values (t : Table κ α) : List α := t.entries.map (·.2)

omit [DecidableEq κ] in
def size (t : Table κ α) : Nat := t.entries.length

omit [DecidableEq κ] in
def map (t : Table κ α) (f : α → β) : Table κ β := ⟨t.entries.map fun e => (e.1, f e.2)⟩

def erase (t : Table κ α) (key : κ) : Table κ α := ⟨t.entries.filter fun e => e.1 ≠ key⟩

theorem find?_put (key other : κ) (value : α) (es : List (κ × α)) :
    find? other (put key value es) = if key = other then some value else find? other es := by
  induction es with
  | nil => simp [put, find?]
  | cons e rest ih =>
    obtain ⟨k, v⟩ := e
    by_cases hk : k = key
    · subst hk; by_cases ho : k = other <;> simp [put, find?, ho]
    · by_cases ho : k = other
      · subst ho; simp [put, find?, hk, Ne.symm hk]
      · simp [put, find?, hk, ho, ih]

/-- A key that was set has its new value, every other key the value it had. -/
@[simp] theorem get?_set (t : Table κ α) (key other : κ) (value : α) :
    (t.set key value).get? other = if key = other then some value else t.get? other :=
  find?_put key other value t.entries

@[simp] theorem get?_empty (key : κ) : (empty : Table κ α).get? key = none := rfl

end Table

end FleetLabels
