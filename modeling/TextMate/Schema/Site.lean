import TextMate.Schema.Problem
import TextMate.Value.Same
import TextMate.Text.Utf8

/-!
# Parts of a value under check

A site is a part of a value together with the way to it.  It also knows the
collections that anchors inside it refer to, and its own number if it has one.
Two sites with one number are the same object, which is how a value that contains
itself is found out.

A broken text is accepted with replacement characters for its halves.  Two of them
may become one text by that although they are two names, so names and keys that
are broken texts are outside of what is described here.
-/

namespace TextMate
namespace Schema

structure Site where
  value : Value
  place : List Step
  number : Option Nat
  anchors : List (Nat × Value)

namespace Site

def resolve (s : Site) : Site :=
  match s.value with
  | .anchored n v => { s with value := v.bare, number := some n, anchors := (n, v) :: s.anchors }
  | .again n =>
      match s.anchors.find? fun entry => entry.1 == n with
      | some entry => { s with value := entry.2.bare, number := some n }
      | none => { s with number := none }
  | _ => { s with number := none }

def top (v : Value) : Site :=
  resolve ⟨v, [], none, []⟩

def child (s : Site) (step : Step) (v : Value) : Site :=
  resolve { s with value := v, place := s.place ++ [step] }

def labelled (s : Site) (steps : List Step) : Site :=
  { s with place := s.place ++ steps }

def reject {α : Type} (s : Site) (mismatch : Mismatch) : Verdict α :=
  .rejected [⟨s.place, mismatch⟩]

/-- A text; bytes that encode one are accepted too, and a broken one with replacement
characters for its halves. -/
def text (s : Site) : Verdict String :=
  match s.value with
  | .text t => .accepted t
  | .broken codes => .accepted codes.shown
  | .bytes bs =>
      match Text.decodeUtf8 bs with
      | .ok t => .accepted t
      | .error _ => s.reject .brokenText
  | _ => s.reject .text

def optional {α : Type} (check : Site → Verdict α) (s : Site) : Verdict (Option α) :=
  match s.value with
  | .null => .accepted none
  | _ => some <$> check s

def items (s : Site) : Option (List Site) :=
  let members (vs : List Value) : List Site :=
    vs.mapIdx fun i v => s.child (.index i) v
  match s.value with
  | .list vs | .tuple vs | .set vs => some (members vs)
  | _ => none

def list {α : Type} (check : Site → Verdict α) (s : Site) : Verdict (List α) :=
  match s.items with
  | some members => Verdict.all (members.map check)
  | none => s.reject .list

def entries? (v : Value) : Option (List (Value × Value)) :=
  match v with
  | .dict es | .view es => some es
  | _ => none

/-- Sets a value under a name: a known name keeps its place. -/
def setNamed {α : Type} (acc : List (String × α)) (name : String) (a : α) :
    List (String × α) :=
  if acc.any fun e => e.1 == name then
    acc.map fun e => if e.1 == name then (name, a) else e
  else acc ++ [(name, a)]

def namedOf {α : Type} (es : List (String × α)) : List (String × α) :=
  es.foldl (fun acc e => setNamed acc e.1 e.2) []

def mapping {α : Type} (check : Site → Verdict α) (s : Site) :
    Verdict (List (String × α)) :=
  match entries? s.value with
  | none => s.reject .dict
  | some es =>
      let entry (e : Value × Value) : Verdict (String × α) :=
        let step := Step.ofKey e.1
        let key := text { s with value := e.1, place := s.place ++ [step, .key "[key]"] }
        Prod.mk <$> key <*> check (s.child step e.2)
      namedOf <$> Verdict.all (es.map entry)

/-- A field under its document key, or else under the name used in calls: the key found and
the value. -/
def findField (es : List (Value × Value)) (key alternate : String) :
    Option (String × Value) :=
  let find (name : String) : Option (String × Value) :=
    (Value.lookup es (.text name)).map fun v => (name, v)
  (find key).or (find alternate)

def required {α : Type} (s : Site) (es : List (Value × Value)) (key alternate : String)
    (check : Site → Verdict α) : Verdict α :=
  match findField es key alternate with
  | some (name, v) => check (s.child (.key name) v)
  | none => .rejected [⟨s.place ++ [.key key], .missing⟩]

def defaulted {α : Type} (s : Site) (es : List (Value × Value)) (key alternate : String)
    (default : α) (check : Site → Verdict α) : Verdict α :=
  match findField es key alternate with
  | some (name, v) => check (s.child (.key name) v)
  | none => .accepted default

/-- Rejects the entries that are no fields; `fields` are the keys and alternates of all. -/
def noExtras (s : Site) (es : List (Value × Value)) (fields : List (String × String)) :
    Verdict Unit :=
  let used := fields.filterMap fun f => (findField es f.1 f.2).map (·.1)
  let extra (e : Value × Value) : Option Problem :=
    match e.1 with
    | .text name =>
        if used.contains name then none else some ⟨s.place ++ [.key name], .extra⟩
    | key => some ⟨s.place ++ [Step.ofKey key], .keyType⟩
  match es.filterMap extra with
  | [] => .accepted ()
  | ps => .rejected ps

end Site
end Schema
end TextMate
