/-! Identifiers that tie together what is reported of one system call. Each is
handed out once, in ascending order. -/

namespace Lifecycle

structure TraceIds where
  next : Nat := 1

namespace TraceIds

/-- The next identifier, for a caller that asks for one or for a new call's span. -/
def take (ids : TraceIds) : Nat × TraceIds := (ids.next, ⟨ids.next + 1⟩)

/-- The next `count` identifiers. -/
def takeMany : Nat → TraceIds → List Nat × TraceIds
  | 0, ids => ([], ids)
  | count + 1, ids =>
    let (rest, after) := takeMany count ids.take.2
    (ids.take.1 :: rest, after)

end TraceIds

end Lifecycle
