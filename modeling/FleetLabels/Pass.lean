import FleetLabels.Status

/-!
    Passes: every classifier on every cluster.

    Each cluster is classified by itself, its labels are arbitrated among the classifiers that match
    it and are not being deleted, and a report on all of it is built. When the evaluation of a cluster
    breaks off, all classifiers fail on that cluster alone. Results are in the order of clusters and
    names, whatever order they came in. -/

namespace FleetLabels

/-- How clusters are evaluated and their labels arbitrated. -/
structure Engine where
  evaluator : Evaluator
  precedence : Precedence

/-- The classifications of a cluster and the arbitration among those that match. -/
structure ClusterOutcome where
  classifications : List Classification
  arbitration : Arbitration

/-- Why a pass is not made. -/
inductive PassFault where
  | classifiers (names : List String)
  | clusters (keys : List String)
  | arbitration (r : Arbitration.Repeated)
  | status (m : StatusReport.MissingLabel)

/-- What is said of inputs that are not told apart. -/
def PassFault.repeatedMessage (what : String) (names : List String) : String :=
  "duplicate " ++ what ++ " identities in pass input: " ++ quotedTexts names

structure PassResult where
  classifications : List Classification
  /-- the arbitration on each cluster, by its key -/
  arbitrations : Table String Arbitration
  status : StatusReport

namespace PassResult

/-- The classification of a classifier on a cluster. -/
def find? (p : PassResult) (classifier key : String) : Option Classification :=
  p.classifications.find? fun c => c.classifier.name == classifier && c.cluster.key == key

def toJson (p : PassResult) : Json :=
  .object (("arbitrations", .list (p.arbitrations.values.map Arbitration.toJson)) ::
    p.status.members)

/-- The canonical text of a pass. -/
def text (p : PassResult) : List Char := p.toJson.indented

end PassResult

namespace Engine

/-- The classifications of a cluster; when the evaluation breaks off, every classifier fails. -/
def classifications (e : Engine) (src : Source) (cs : List Classifier) (cluster : Cluster) :
    List Classification :=
  match (Classification.classifyAll e.evaluator src cluster cs).1 with
  | .ok rs => rs
  | .error a => cs.map (Classification.broken cluster a)

/-- The classifiers that match and are not being deleted. -/
def contenders (rs : List Classification) : List Classifier :=
  (rs.filter fun r => r.matched && !r.classifier.isDeleted).map (·.classifier)

/-- One cluster, classified and arbitrated. -/
def evaluateCluster (e : Engine) (src : Source) (cs : List Classifier) (cluster : Cluster) :
    Except Arbitration.Repeated ClusterOutcome := do
  let rs := e.classifications src cs cluster
  return ⟨rs, ← Arbitration.arbitrate e.precedence cluster (contenders rs)⟩

/-- Clusters in their order. -/
def sortedClusters (clusters : List Cluster) : List Cluster :=
  clusters.mergeSort fun a b => a.compare b != .gt

/-- Classifications in the order of the names of their classifiers. -/
def sortedByClassifier (rs : List Classification) : List Classification :=
  rs.mergeSort fun a b => compare a.classifier.name b.classifier.name != .gt

/-- The outcomes of clusters by their keys, kept in the order in which the clusters finish. -/
def outcomes (e : Engine) (source : Cluster → Source) (cs : List Classifier)
    (finished : List Cluster) : Except Arbitration.Repeated (Table String ClusterOutcome) := do
  return Table.ofList (← finished.mapM fun c =>
    (e.evaluateCluster (source c) cs c).map fun o => (c.key, o))

/-- The pass over clusters that are all different, with classifiers that are, when the clusters
    finish in an order of their own. -/
def assemble (e : Engine) (source : Cluster → Source) (cs : List Classifier)
    (clusters finished : List Cluster) : Except PassFault PassResult := do
  let kept ← (e.outcomes source cs finished).mapError .arbitration
  let outcomes := (sortedClusters clusters).filterMap fun c => (kept.get? c.key).map fun o => (c, o)
  let classifications := outcomes.flatMap fun o => sortedByClassifier o.2.classifications
  let arbitrations := Table.ofList (outcomes.map fun o => (o.1.key, o.2.arbitration))
  return ⟨classifications, arbitrations,
    ← (StatusReport.build classifications arbitrations).mapError .status⟩

/-- A pass over all clusters, which finish in an order of their own. Names of classifiers and keys of
    clusters must not repeat. -/
def runFinishing (e : Engine) (source : Cluster → Source) (cs : List Classifier)
    (clusters finished : List Cluster) : Except PassFault PassResult :=
  let names := repeated (cs.map Classifier.name)
  let keys := repeated (clusters.map Cluster.key)
  if !names.isEmpty then .error (.classifiers names)
  else if !keys.isEmpty then .error (.clusters keys)
  else e.assemble source cs clusters finished

/-- A pass over all clusters, one after the other. -/
def run (e : Engine) (source : Cluster → Source) (cs : List Classifier) (clusters : List Cluster) :
    Except PassFault PassResult :=
  e.runFinishing source cs clusters clusters

end Engine

end FleetLabels
