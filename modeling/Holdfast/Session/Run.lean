import Holdfast.Session.Watching

namespace Holdfast.Session

def perform : Step → Act Result
  | .advance ms => do
    change (·.advance ms)
    return .done
  | .store s => storeStep s
  | .pool s => poolStep s
  | .lock s => lockStep s
  | .failover s => failoverStep s

/-- Takes a step, then lets everybody go on until they wait. -/
def step (s : Session) (st : Step) : Session × Report :=
  let (r, s) := (perform st).run s
  let result := match r with
    | .ok result => result
    | .error trouble => .trouble trouble
  let s := s.settle
  (s, ⟨result, s.deployment.now, s.deployment.connects⟩)

/-- Takes the steps in order. -/
def run (s : Session) : List Step → List Report
  | [] => []
  | st :: steps =>
    let (s, report) := s.step st
    report :: run s steps

end Holdfast.Session
