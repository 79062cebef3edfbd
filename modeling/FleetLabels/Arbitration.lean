import FleetLabels.Classifier
import FleetLabels.Cluster

/-!
    Arbitration: who owns the labels of a cluster.

    The classifiers that match a cluster are put in order, first by a precedence and then by name.
    Going through them in that order, the first that wants a key owns it, and every later one gets
    the key as unmanaged, with the name of the owner. -/

namespace FleetLabels

open Calendar

/-- Which of two classifiers goes first. -/
abbrev Precedence := Classifier → Classifier → Ordering

namespace Precedence

/-- The oldest classifier goes first, and those without a creation time go last. -/
def byCreation : Precedence := fun a b =>
  match a.created, b.created with
  | some s, some t => compare s.instant t.instant
  | some _, none => .lt
  | none, some _ => .gt
  | none, none => .eq

def byName : Precedence := fun a b => compare a.name b.name

/-- The precedence by a key of the classifiers. -/
def ofKey {κ : Type} (cmp : κ → κ → Ordering) (key : Classifier → κ) : Precedence := fun a b =>
  cmp (key a) (key b)

/-- The precedence of a comparator, which answers with a negative number when the first of two
    classifiers goes first and with zero when neither does. -/
def ofComparator (answer : Classifier → Classifier → Int) : Precedence := fun a b =>
  compare (answer a b) 0

/-- The precedences that can be chosen by name. -/
def ofName? (name : String) : Option Precedence :=
  if name = "creation" then some byCreation else if name = "name" then some byName else none

/-- The precedence with the name as the last resort. -/
def total (p : Precedence) : Precedence := fun a b => (p a b).then (compare a.name b.name)

end Precedence

/-- A label that a classifier wants and another one owns. -/
structure Unmanaged where
  key : String
  owner : String
  deriving DecidableEq, Inhabited, Repr

namespace Unmanaged

def reason (u : Unmanaged) : String := "owned by " ++ u.owner

def toJson (u : Unmanaged) : Json :=
  .object [("key", .text u.key), ("failureMessage", .text u.reason)]

end Unmanaged

/-- The outcome of one classifier on one cluster. -/
structure MatchRecord where
  cluster : Cluster
  matched : Bool
  /-- the keys that the classifier owns -/
  managed : List String
  unmanaged : List Unmanaged
  failures : List String
  deriving DecidableEq, Inhabited, Repr

def MatchRecord.toJson (r : MatchRecord) : Json :=
  .object [("clusterRef", r.cluster.toJson), ("matched", .bool r.matched),
    ("managedLabels", .texts r.managed),
    ("unManagedLabels", .list (r.unmanaged.map Unmanaged.toJson)),
    ("failureMessages", .texts r.failures)]

/-- The texts that occur more than once in a list, each once, in code point order. -/
def repeated (xs : List String) : List String :=
  ((xs.filter fun x => xs.count x > 1).eraseDups).mergeSort fun a b => decide (a ≤ b)

/-- Texts as messages list them. -/
def quotedTexts (xs : List String) : String := (Datum.list (xs.map Datum.text)).quoted

/-- The keys owned so far. -/
structure Ownership where
  /-- the names of the owners -/
  owners : Table String String
  /-- the values that the owners want -/
  desired : Table String String
  deriving Inhabited

/-- What a classifier gets of the keys that it wants. -/
structure Share where
  managed : List String
  unmanaged : List Unmanaged
  deriving Inhabited

namespace Ownership

def empty : Ownership := ⟨Table.empty, Table.empty⟩

/-- A classifier claims a label: a key without an owner becomes its own. -/
def claim (name : String) (state : Ownership × Share) (l : Label) : Ownership × Share :=
  let (o, share) := state
  match o.owners.get? l.key with
  | none => (⟨o.owners.set l.key name, o.desired.set l.key l.value⟩,
      { share with managed := share.managed ++ [l.key] })
  | some owner => (o, { share with unmanaged := share.unmanaged ++ [⟨l.key, owner⟩] })

/-- A classifier claims all its labels, in the order of their keys. -/
def claimAll (o : Ownership) (c : Classifier) : Ownership × Share :=
  (c.labels.mergeSort fun a b => decide (a.key ≤ b.key)).foldl (claim c.name) (o, ⟨[], []⟩)

/-- All classifiers in turn, each with what it gets. -/
def scan : Ownership → List Classifier → Ownership × List (Classifier × Share)
  | o, [] => (o, [])
  | o, c :: rest =>
    let (o, share) := o.claimAll c
    let (o, shares) := scan o rest
    (o, (c, share) :: shares)

end Ownership

structure Arbitration where
  cluster : Cluster
  /-- the names of the classifiers in their order -/
  order : List String
  owners : Table String String
  desired : Table String String
  /-- a record for each classifier, by its name -/
  records : Table String MatchRecord
  deriving Inhabited

namespace Arbitration

/-- Classifiers of one name cannot be told apart as owners. -/
structure Repeated where
  names : List String
  deriving DecidableEq, Repr

def Repeated.message (r : Repeated) : String :=
  "duplicate classifier names in arbitration input: " ++ quotedTexts r.names

/-- Classifiers in the order in which they claim labels. -/
def ordered (p : Precedence) (cs : List Classifier) : List Classifier :=
  cs.mergeSort fun a b => p.total a b != .gt

/-- Ownership of the labels of a cluster among classifiers of different names. -/
def arbitrate (p : Precedence) (cluster : Cluster) (cs : List Classifier) :
    Except Repeated Arbitration :=
  let again := repeated (cs.map Classifier.name)
  if again.isEmpty then
    let (o, shares) := Ownership.empty.scan (ordered p cs)
    .ok {
      cluster
      order := shares.map fun s => s.1.name
      owners := o.owners
      desired := o.desired
      records := Table.ofList (shares.map fun s =>
        (s.1.name, ⟨cluster, true, s.2.managed, s.2.unmanaged, []⟩)) }
  else .error ⟨again⟩

/-- The number of requests that were denied. -/
def conflicts (a : Arbitration) : Nat :=
  (a.records.values.map fun r => r.unmanaged.length).foldl (· + ·) 0

def toJson (a : Arbitration) : Json :=
  .object [("cluster", a.cluster.toJson), ("order", .texts a.order),
    ("owners", .textObject a.owners.entries), ("desiredLabels", .textObject a.desired.entries)]

end Arbitration

end FleetLabels
