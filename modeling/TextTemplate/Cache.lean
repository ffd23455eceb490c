import TextTemplate.Entries

/-! A cache of a fixed capacity that gives up what was least recently used. -/

namespace TextTemplate

structure Cache (α : Type) where
  capacity : Nat
  /-- What is held, the most recently used first. -/
  entries : List (String × α)
  deriving Repr, DecidableEq

namespace Cache

variable {α : Type}

def none : Cache α := ⟨0, []⟩

def ofCapacity (capacity : Nat) : Cache α := ⟨max capacity 1, []⟩

def find? (key : String) (c : Cache α) : Option α :=
  Entries.find? key c.entries

def contains (key : String) (c : Cache α) : Bool :=
  (c.find? key).isSome

def touch (key : String) (c : Cache α) : Cache α :=
  match c.find? key with
  | some v => { c with entries := (key, v) :: Entries.erase key c.entries }
  | Option.none => c

def insert (key : String) (v : α) (c : Cache α) : Cache α :=
  { c with entries := ((key, v) :: Entries.erase key c.entries).take c.capacity }

def erase (key : String) (c : Cache α) : Cache α :=
  { c with entries := Entries.erase key c.entries }

def clear (c : Cache α) : Cache α :=
  { c with entries := [] }

theorem mem_of_find? {c : Cache α} {k : String} {v : α} (h : c.find? k = some v) :
    (k, v) ∈ c.entries :=
  Entries.mem_of_find? h

theorem mem_erase {c : Cache α} {k : String} {e : String × α} (h : e ∈ (c.erase k).entries) :
    e ∈ c.entries ∧ e.1 ≠ k := by
  simpa [erase, Entries.erase] using h

theorem mem_touch {c : Cache α} {k : String} {e : String × α} (h : e ∈ (c.touch k).entries) :
    e ∈ c.entries := by
  unfold touch at h
  split at h
  · rename_i v hv
    rcases List.mem_cons.1 h with rfl | h
    · exact mem_of_find? hv
    · exact (mem_erase h).1
  · exact h

theorem mem_insert {c : Cache α} {k : String} {v : α} {e : String × α}
    (h : e ∈ (c.insert k v).entries) : e = (k, v) ∨ e ∈ c.entries := by
  rcases List.mem_cons.1 (List.mem_of_mem_take h) with rfl | h
  · exact .inl rfl
  · exact .inr (mem_erase h).1

end Cache
end TextTemplate
