import JvmCalls.Walk.Chunked

/-!
# Counts of walks

A walk only adds to its counts and never reads them.  Counts that were there
before can therefore be added afterwards, which makes the counts of a walk the
sum of the counts of its entries.
-/

namespace JvmCalls

namespace WalkStats

@[simp]
theorem zero_add (stats : WalkStats) : zero.add stats = stats := by
  apply WalkStats.ext <;> simp [zero, add]

@[simp]
theorem add_zero (stats : WalkStats) : stats.add zero = stats := by
  apply WalkStats.ext <;> simp [zero, add]

theorem add_assoc (left middle right : WalkStats) :
    (left.add middle).add right = left.add (middle.add right) := by
  apply WalkStats.ext <;> simp [add, Nat.add_assoc]

theorem countSkipped_add (left right : WalkStats) :
    (left.add right).countSkipped = left.add right.countSkipped := rfl

theorem countClass_add (left right : WalkStats) :
    (left.add right).countClass = left.add right.countClass := rfl

theorem countFailed_add (left right : WalkStats) :
    (left.add right).countFailed = left.add right.countFailed := rfl

theorem countEdges_add (left right : WalkStats) (count : Nat) :
    (left.add right).countEdges count = left.add (right.countEdges count) := by
  apply WalkStats.ext <;> simp [add, countEdges, Nat.add_assoc]

end WalkStats

namespace Walker

variable {State SinkFault : Type}

theorem deliver_add (walker : Walker) (sink : Sink State SinkFault) (entry : String)
    (decoded : Except Fault (List CallEdge)) (left right : WalkStats) :
    walker.deliver sink entry decoded (left.add right) =
      left.add <$> walker.deliver sink entry decoded right := by
  cases decoded with
  | ok edges =>
      simp only [deliver, map_bind, map_pure, WalkStats.countEdges_add]
  | error fault =>
      simp only [deliver]
      cases walker.policy with
      | abort => rfl
      | skip => simp only [map_pure, WalkStats.countFailed_add]

theorem visit_add (walker : Walker) (sink : Sink State SinkFault) (left right : WalkStats)
    (read : EntryRead) :
    walker.visit sink (left.add right) read = left.add <$> walker.visit sink right read := by
  match read with
  | .error fault => rfl
  | .ok (.skipped name) => simp only [visit, map_pure, WalkStats.countSkipped_add]
  | .ok (.classFile name data) =>
      simp only [visit, WalkStats.countClass_add]
      exact deliver_add walker sink name _ left right.countClass

end Walker

end JvmCalls
