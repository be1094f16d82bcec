import TextMate.Files.Path
import TextMate.Text.Quoted

/-!
# Stores of files

A store holds directories and files under their places.  A place is a base with
names that are all there is to it; a path becomes a place by following its names
from directory to directory.  What an operation refuses it refuses for one of
four causes and with the path it was given.
-/

namespace TextMate
namespace Files

inductive Refusal where
  | notFound
  | exists
  | notDirectory
  | isDirectory
  deriving DecidableEq, Repr

def Refusal.number : Refusal → Nat
  | .notFound => 2
  | .exists => 17
  | .notDirectory => 20
  | .isDirectory => 21

def Refusal.words : Refusal → String
  | .notFound => "No such file or directory"
  | .exists => "File exists"
  | .notDirectory => "Not a directory"
  | .isDirectory => "Is a directory"

structure FileError where
  cause : Refusal
  path : Path
  deriving DecidableEq, Repr

def FileError.message (e : FileError) : String :=
  "[Errno " ++ toString e.cause.number ++ "] " ++ e.cause.words ++ ": "
    ++ Text.quoted e.path.text

structure Place where
  base : Base
  names : List String
  deriving DecidableEq, Repr

inductive Entry where
  | directory
  | file (content : List UInt8)
  deriving DecidableEq, Repr

structure Store where
  entries : List (Place × Entry)

namespace Store

def empty : Store := ⟨[]⟩

/-- What is at a place; the base itself is a directory. -/
def get? (s : Store) (place : Place) : Option Entry :=
  if place.names.isEmpty then some .directory
  else (s.entries.find? fun e => e.1 == place).map (·.2)

def insert (s : Store) (place : Place) (entry : Entry) : Store :=
  if s.entries.any fun e => e.1 == place then
    ⟨s.entries.map fun e => if e.1 == place then (place, entry) else e⟩
  else ⟨s.entries ++ [(place, entry)]⟩

def erase (s : Store) (place : Place) : Store :=
  ⟨s.entries.filter fun e => e.1 != place⟩

/-! ## What is at a place after a change -/

theorem find?_map_replace_self (entries : List (Place × Entry)) (place : Place) (entry : Entry)
    (h : (entries.any fun e => e.1 == place) = true) :
    (entries.map fun e => if e.1 == place then (place, entry) else e).find?
      (fun e => e.1 == place) = some (place, entry) := by
  induction entries with
  | nil => simp at h
  | cons e entries ih =>
      by_cases he : e.1 = place
      · simp [he]
      · have hrest : (entries.any fun e => e.1 == place) = true := by
          simpa [he] using h
        rw [List.map_cons, List.find?_cons_of_neg (by simp [he])]
        exact ih hrest

theorem find?_map_replace_of_ne (entries : List (Place × Entry)) {place other : Place}
    (entry : Entry) (h : other ≠ place) :
    (entries.map fun e => if e.1 == place then (place, entry) else e).find?
      (fun e => e.1 == other) = entries.find? (fun e => e.1 == other) := by
  induction entries with
  | nil => rfl
  | cons e entries ih =>
      by_cases he : e.1 = place
      · have ho : ¬ e.1 = other := fun ho => h (ho.symm.trans he)
        rw [List.map_cons, List.find?_cons_of_neg (by simpa [he] using Ne.symm h),
          List.find?_cons_of_neg (by simpa using ho), ih]
      · by_cases ho : e.1 = other
        · rw [List.map_cons, if_neg (by simpa using he),
            List.find?_cons_of_pos (by simpa using ho),
            List.find?_cons_of_pos (by simpa using ho)]
        · rw [List.map_cons, if_neg (by simpa using he),
            List.find?_cons_of_neg (by simpa using ho),
            List.find?_cons_of_neg (by simpa using ho), ih]

theorem get?_insert_self (s : Store) (place : Place) (entry : Entry) (h : place.names ≠ []) :
    (s.insert place entry).get? place = some entry := by
  have hn : place.names.isEmpty = false := by simpa using h
  unfold insert
  split
  · rename_i hany
    rw [get?, hn, find?_map_replace_self s.entries place entry hany]
    rfl
  · rename_i hany
    have hnone : s.entries.find? (fun e => e.1 == place) = none := by
      rw [List.find?_eq_none]
      intro e he hp
      exact hany (List.any_eq_true.2 ⟨e, he, hp⟩)
    simp [get?, hn, List.find?_append, hnone]

theorem get?_insert_of_ne (s : Store) {place other : Place} (entry : Entry)
    (h : other ≠ place) : (s.insert place entry).get? other = s.get? other := by
  unfold insert
  split
  · simp only [get?, find?_map_replace_of_ne s.entries entry h]
  · simp [get?, List.find?_append, Ne.symm h]

/-! ## Following paths -/

/-- The place that names lead to from a place.  There is nothing above a base. -/
def follow (s : Store) (place : Place) : List String → Except Refusal Place
  | [] => .ok place
  | name :: names =>
      match s.get? place with
      | none => .error .notFound
      | some (.file _) => .error .notDirectory
      | some .directory =>
          if name == ".." then
            if place.names.isEmpty then .error .notFound
            else follow s ⟨place.base, place.names.dropLast⟩ names
          else follow s ⟨place.base, place.names ++ [name]⟩ names

def place (s : Store) (p : Path) : Except FileError Place :=
  (s.follow ⟨p.base, []⟩ p.names).mapError fun cause => ⟨cause, p⟩

def find? (s : Store) (p : Path) : Option Entry :=
  match s.place p with
  | .ok place => s.get? place
  | .error _ => none

def contains (s : Store) (p : Path) : Bool :=
  (s.find? p).isSome

def isDirectory (s : Store) (p : Path) : Bool :=
  s.find? p == some .directory

def read (s : Store) (p : Path) : Except FileError (List UInt8) := do
  match s.get? (← s.place p) with
  | none => throw ⟨.notFound, p⟩
  | some .directory => throw ⟨.isDirectory, p⟩
  | some (.file content) => return content

/-- Gives a file its content; the file need not exist, but its directory. -/
def write (s : Store) (p : Path) (content : List UInt8) : Except FileError Store := do
  let place ← s.place p
  match s.get? place with
  | some .directory => throw ⟨.isDirectory, p⟩
  | _ => return s.insert place (.file content)

def remove (s : Store) (p : Path) : Except FileError Store := do
  let place ← s.place p
  match s.get? place with
  | none => throw ⟨.notFound, p⟩
  | some .directory => throw ⟨.isDirectory, p⟩
  | some (.file _) => return s.erase place

def children (s : Store) (p : Path) : Except FileError (List Path) := do
  let place ← s.place p
  match s.get? place with
  | none => throw ⟨.notFound, p⟩
  | some (.file _) => throw ⟨.notDirectory, p⟩
  | some .directory =>
      let names := s.entries.filterMap fun e =>
        if e.1.base == place.base && !e.1.names.isEmpty && e.1.names.dropLast == place.names then
          e.1.names.getLast?
        else none
      return names.map fun name => { p with names := p.names ++ [name] }

/-! ## Making directories -/

def makeDirectory (s : Store) (p : Path) : Except FileError Store := do
  let place ← s.place p
  match s.get? place with
  | some _ => throw ⟨.exists, p⟩
  | none => return s.insert place .directory

def provideDirectory (s : Store) (p : Path) : Except FileError Store :=
  match s.makeDirectory p with
  | .ok s => .ok s
  | .error e => if s.isDirectory p then .ok s else .error e

/-- Makes the directory at the reverse of some names and those above it, as far as they are
missing.  What was made before a refusal stays. -/
def provideFrom (s : Store) (base : Base) : List String → Store × Option FileError
  | [] => (s, none)
  | name :: above =>
      let p : Path := ⟨base, (name :: above).reverse⟩
      match s.provideDirectory p with
      | .ok s => (s, none)
      | .error e =>
          if e.cause == .notFound then
            match provideFrom s base above with
            | (s, some e) => (s, some e)
            | (s, none) =>
                match s.provideDirectory p with
                | .ok s => (s, none)
                | .error e => (s, some e)
          else (s, some e)

def provide (s : Store) (p : Path) : Store × Option FileError :=
  s.provideFrom p.base p.names.reverse

/-! ## Listing -/

/-- The texts of all paths below the working directory in order; directories end with a
slash. -/
def listing (s : Store) : List String :=
  let texts := s.entries.filterMap fun e =>
    if e.1.base == .here then
      let text := (Path.mk .here e.1.names).text
      some (if e.2 == .directory then text ++ "/" else text)
    else none
  texts.mergeSort fun a b => !(b < a)

end Store
end Files
end TextMate
