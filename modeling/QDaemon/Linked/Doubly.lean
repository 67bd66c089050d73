import QDaemon.Linked.Chain

/-!
# Doubly linked lists

Lists with one head whose nodes point back to the node before them, the first one to
nothing.
-/

namespace QDaemon.Linked

open Option List Function

universe u

/-- A head and the links of the nodes that are allocated. -/
abbrev Doubly (N : Type u) := Lists Unit N (Option N)

namespace Doubly

variable {N : Type u}

/-- The place that a back pointer stands for. -/
def placeOf : Option N → Place Unit N
  | none => .head ()
  | some node => .next node

/-- The back pointer of a node that is reached from a place. -/
def prevMark : Place Unit N → Option N
  | .head _ => none
  | .next before => some before

@[simp]
theorem placeOf_prevMark (place : Place Unit N) : placeOf (prevMark place) = place := by
  cases place <;> rfl

/-- The place behind the last node. -/
theorem placeOf_getLast? (nodes : List N) :
    placeOf nodes.getLast? = Lists.endPlace (.head ()) nodes := by
  rcases eq_nil_or_concat nodes with rfl | ⟨front, last, rfl⟩
  · rfl
  · rw [concat_eq_append, List.getLast?_concat, Lists.endPlace_append]
    rfl

variable [DecidableEq N] {lists : Doubly N} {nodes front back : List N} {node : N}
  {mark : Place Unit N → Option N}

omit [DecidableEq N] in
theorem update_unit (old new : List N) : update (fun _ : Unit => old) () new = fun _ => new :=
  funext fun _ => update_self _ _ _

/-- Link what is before a node and what is behind it to each other. -/
def bypass (lists : Doubly N) (node : N) : Option (Doubly N) := do
  let fields ← lists.node node
  let lists ← lists.store fields.next (placeOf fields.back)
  lists.setSuccessor fields.back fields.next

/-- A node whose back pointer stands for its place is taken out of the list and
freed. -/
theorem bypass_at (rep : lists.Chains mark fun _ => front ++ node :: back)
    (honest : placeOf (mark (Lists.endPlace (.head ()) front)) = Lists.endPlace (.head ()) front) :
    ∃ after, bypass lists node = some after ∧
      (after.free node).Chains mark (fun _ => front ++ back) ∧
      ∀ other, ((after.free node).backOf other).isSome ↔
        other ≠ node ∧ (lists.backOf other).isSome := by
  obtain ⟨path, rest⟩ := Lists.chain_append.mp (rep.chain ())
  have position : lists.At mark () front node back :=
    ⟨rep.nodup (), path, rest.1.1, rest.1.2.1, rest.1.2.2, rest.2⟩
  obtain ⟨cut, unlinked, chained, same⟩ := rep.unlinkAt rfl position none
  obtain ⟨fields, stored, linked, fieldsEq, storedEq, linkedEq, freeEq⟩ := Lists.unlink_free unlinked
  have fieldsBack : fields.back = mark (Lists.endPlace (.head ()) front) := by
    have marked := position.marked
    rw [Lists.backOf, fieldsEq] at marked
    exact some.inj marked
  have gone : ∀ _ : Unit, node ∉ front ++ back := fun _ mem =>
    (mem_append.mp mem).elim position.not_mem_front position.not_mem_back
  refine ⟨linked, ?_, freeEq ▸ chained.free gone, fun other => ?_⟩
  · simp [bypass, fieldsEq, fieldsBack, honest, storedEq, linkedEq]
  · rw [← freeEq, Lists.backOf, Lists.free]
    by_cases isNode : other = node
    · simp [isNode]
    · simp only [update_of_ne isNode]
      rw [← Lists.backOf, same]
      simp [isNode]

section

variable (rep : lists.Chains prevMark fun _ => nodes)
include rep

/-- A node of a list whose back pointers all stand for their places. -/
theorem bypass_mem (mem : node ∈ nodes) : ∃ after, bypass lists node = some after ∧
      (after.free node).Chains prevMark (fun _ => nodes.erase node) ∧
      ∀ other, ((after.free node).backOf other).isSome ↔
        other ≠ node ∧ (lists.backOf other).isSome := by
  obtain ⟨front, back, whole⟩ := append_of_mem mem
  have nodup := rep.nodup ()
  simp only [whole] at rep nodup ⊢
  have outside : node ∉ front := fun frontMem =>
    (nodup_append.mp nodup).2.2 node frontMem node mem_cons_self rfl
  rw [erase_append_right _ outside, erase_cons_head]
  exact bypass_at rep (placeOf_prevMark _)

omit [DecidableEq N] in
/-- Only the first node points back to nothing. -/
theorem head?_of_backOf (mem : node ∈ nodes)
    (first : lists.backOf node = some none) : nodes.head? = some node := by
  obtain ⟨front, back, whole, position⟩ : ∃ front back, nodes = front ++ node :: back ∧
      lists.At prevMark () front node back := rep.exists_at mem
  have marked := position.marked
  rw [first, ← placeOf_getLast?] at marked
  have empty : front.getLast? = none := by
    cases last : front.getLast? with
    | none => rfl
    | some before =>
      rw [last] at marked
      exact absurd (some.inj marked) (by simp [placeOf, prevMark])
  rw [whole, List.getLast?_eq_none_iff.mp empty]
  rfl

end

/-- Link a node behind the last one. -/
def append (lists : Doubly N) (tail : Option N) (node : N) : Option (Doubly N) :=
  lists.store (some node) (placeOf tail)

end Doubly

end QDaemon.Linked
