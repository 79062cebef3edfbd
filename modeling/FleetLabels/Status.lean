import FleetLabels.Arbitration
import FleetLabels.Classification

/-!
    Status of classifiers on clusters.

    A classifier that is being deleted is *removing* as long as the cluster carries one of its labels
    that nobody else wants with the same value, and *removed* after that. Any other has *failed* when
    something could not be evaluated; it is *provisioning* while a key that it owns has not its value
    on the cluster, and *provisioned* otherwise. -/

namespace FleetLabels

inductive FeatureStatus where
  | provisioning
  | provisioned
  | failed
  | removing
  | removed
  deriving DecidableEq, Inhabited, Repr

def FeatureStatus.name : FeatureStatus → String
  | .provisioning => "Provisioning"
  | .provisioned => "Provisioned"
  | .failed => "Failed"
  | .removing => "Removing"
  | .removed => "Removed"

/-- What a classifier has, or should have, applied on a cluster. -/
structure ClusterInfo where
  cluster : Cluster
  hash : String
  status : FeatureStatus
  failure : Option String
  deriving DecidableEq, Repr

def ClusterInfo.toJson (i : ClusterInfo) : Json :=
  .object [("cluster", i.cluster.toJson), ("hash", .text i.hash), ("status", .text i.status.name),
    ("failureMessage", .optionalText i.failure)]

/-- The name of the report on a classifier and a cluster; the namespace is no part of it. -/
def reportName (classifier : String) (c : Cluster) : String :=
  c.type.lowerName ++ "--" ++ classifier ++ "--" ++ c.name

/-- The labels of the report on a classifier and a cluster. -/
def reportLabels (classifier : String) (c : Cluster) : List (String × String) :=
  [("clusterclassifier.io/classifier-name", classifier),
    ("clusterclassifier.io/cluster-name", c.name),
    ("clusterclassifier.io/cluster-type", c.type.lowerName)]

/-- A report that binds a classifier to a cluster. -/
structure Report where
  classifier : String
  cluster : Cluster
  matched : Bool
  hash : String
  status : FeatureStatus
  failure : Option String
  deriving DecidableEq, Repr

namespace Report

def name (r : Report) : String := reportName r.classifier r.cluster

def labels (r : Report) : List (String × String) := reportLabels r.classifier r.cluster

def toJson (r : Report) : Json :=
  .object [("name", .text r.name), ("labels", .textObject r.labels),
    ("classifierName", .text r.classifier), ("cluster", r.cluster.toJson),
    ("match", .bool r.matched), ("hash", .text r.hash), ("status", .text r.status.name),
    ("failureMessage", .optionalText r.failure)]

end Report

/-- One classifier on all clusters. -/
structure ClassifierStatus where
  name : String
  records : List MatchRecord
  infos : List ClusterInfo

namespace ClassifierStatus

/-- The records of the clusters that match. -/
def matching (s : ClassifierStatus) : List MatchRecord := s.records.filter (·.matched)

/-- The record of a cluster. -/
def recordFor? (s : ClassifierStatus) (key : String) : Option MatchRecord :=
  s.records.find? fun r => r.cluster.key == key

def toJson (s : ClassifierStatus) : Json :=
  .object [("name", .text s.name), ("matchRecords", .list (s.records.map MatchRecord.toJson)),
    ("clusterInfo", .list (s.infos.map ClusterInfo.toJson))]

end ClassifierStatus

structure StatusReport where
  statuses : List ClassifierStatus
  reports : List Report

namespace StatusReport

def statusFor? (s : StatusReport) (classifier : String) : Option ClassifierStatus :=
  s.statuses.find? fun t => t.name == classifier

/-- Statuses and reports as members of an object. -/
def members (s : StatusReport) : List (String × Json) :=
  [("statuses", .list (s.statuses.map ClassifierStatus.toJson)),
    ("reports", .list (s.reports.map Report.toJson))]

/-- A key is recorded as owned by a classifier that does not list it. -/
structure MissingLabel where
  key : String
  deriving DecidableEq, Repr

/-- The record of a classification, with what the classifier got when it took part in the
    arbitration. -/
def recordOf (c : Classification) (a : Option Arbitration) : MatchRecord :=
  let arbitrated := a.bind fun a => a.records.get? c.classifier.name
  match arbitrated with
  | some r =>
    if c.matched then ⟨c.cluster, true, r.managed, r.unmanaged, c.failures⟩
    else ⟨c.cluster, false, [], [], c.failures⟩
  | none => ⟨c.cluster, c.matched, [], [], c.failures⟩

/-- The labels of a classifier that the cluster still carries for it alone. -/
def leftover (c : Classification) (a : Option Arbitration) : List Label :=
  c.classifier.labels.filter fun l =>
    c.cluster.labels.get? l.key == some l.value &&
      (a.bind fun a => a.desired.get? l.key) != some l.value

/-- Whether a key that a classifier owns has not its value on the cluster. -/
def isPending (c : Classification) (key : String) : Except MissingLabel Bool :=
  match c.classifier.wanted? key with
  | some value => .ok (c.cluster.labels.get? key != some value)
  | none => .error ⟨key⟩

/-- Status and failure of a classification. -/
def featureStatus (c : Classification) (r : MatchRecord) (a : Option Arbitration) :
    Except MissingLabel (FeatureStatus × Option String) :=
  if c.classifier.isDeleted then
    .ok (if (leftover c a).isEmpty then .removed else .removing, none)
  else if !c.failures.isEmpty then .ok (.failed, some ("; ".intercalate c.failures))
  else do
    let pending ← r.managed.mapM (isPending c)
    return (if pending.contains true then .provisioning else .provisioned, none)

/-- A classification with its record, status and failure. -/
structure Assessed where
  name : String
  record : MatchRecord
  hash : String
  status : FeatureStatus
  failure : Option String

namespace Assessed

def info (x : Assessed) : ClusterInfo := ⟨x.record.cluster, x.hash, x.status, x.failure⟩

def report (x : Assessed) : Report :=
  ⟨x.name, x.record.cluster, x.record.matched, x.hash, x.status, x.failure⟩

end Assessed

/-- Classifications by classifier name and cluster. -/
def sorted (cs : List Classification) : List Classification :=
  cs.mergeSort fun a b =>
    ((compare a.classifier.name b.classifier.name).then (a.cluster.compare b.cluster)) != .gt

/-- The hash of the first classification of a name. -/
def hashOf (cs : List Classification) (name : String) : String :=
  match cs.find? fun c => c.classifier.name == name with
  | some c => c.classifier.hash
  | none => ""

/-- Every classification assessed with the arbitration on its cluster. -/
def assess (arbitrations : Table String Arbitration) (cs : List Classification) :
    Except MissingLabel (List Assessed) :=
  cs.mapM fun c => do
    let a := arbitrations.get? c.cluster.key
    let record := recordOf c a
    let (status, failure) ← featureStatus c record a
    return ⟨c.classifier.name, record, hashOf cs c.classifier.name, status, failure⟩

/-- What was assessed of one classifier. -/
def statusOf (xs : List Assessed) (name : String) : ClassifierStatus :=
  let own := xs.filter fun x => x.name == name
  ⟨name, own.map (·.record), own.map Assessed.info⟩

/-- Names, each once, in code point order. -/
def namesOf (xs : List Assessed) : List String :=
  (xs.map (·.name)).eraseDups.mergeSort fun a b => decide (a ≤ b)

/-- The report on classifications and on the arbitrations by the keys of their clusters. -/
def build (cs : List Classification) (arbitrations : Table String Arbitration) :
    Except MissingLabel StatusReport := do
  let xs ← assess arbitrations (sorted cs)
  return ⟨(namesOf xs).map (statusOf xs), xs.map Assessed.report⟩

end StatusReport

end FleetLabels
